import KeropOS.Proc.Invariant

/-!
# What a new process inherits

Creation sets some fields of the control block, adds two flags to those that are there, and leaves the
general registers. Two states that differ in control blocks that are not live are compared.

* `AgreeOnLive`, `SameLeftovers`; **`newPcb_eq_iff`**: what is left of the old control block;
* **`create_agrees`**: both creations return the same code, and take the same slot and directory;
* **`creation_inherits_iff`**: when the new process is the same in both.
-/

namespace KeropOS

open Transition

/-- The states differ in the control blocks of slots that are not live, at most. -/
structure AgreeOnLive (s t : Kernel) : Prop where
  list : t.list_of_process = s.list_of_process
  count : t.active_process_count = s.active_process_count
  paging : t.paging = s.paging
  live : ∀ i, s.list_of_process i = true → t.process_list i = s.process_list i

/-- The same general registers, and the same flags but for bits 1 and 9. -/
structure SameLeftovers (c c' : Context) : Prop where
  edi : c'.cpu.edi = c.cpu.edi
  esi : c'.cpu.esi = c.cpu.esi
  ebx : c'.cpu.ebx = c.cpu.ebx
  edx : c'.cpu.edx = c.cpu.edx
  ecx : c'.cpu.ecx = c.cpu.ecx
  eax : c'.cpu.eax = c.cpu.eax
  flags : c'.eflags &&& ~~~0x202 = c.eflags &&& ~~~0x202

theorem or_eq_or_iff {w : ℕ} (x y m : BitVec w) : x ||| m = y ||| m ↔ x &&& ~~~m = y &&& ~~~m := by
  simp only [BitVec.eq_of_getElem_eq_iff, BitVec.getElem_or, BitVec.getElem_and, BitVec.getElem_not]
  refine forall_congr' fun i => forall_congr' fun hi => ?_
  cases m[i] <;> simp

theorem flags_eq_iff (x y : UInt32) : x ||| 0x2 ||| 0x200 = y ||| 0x2 ||| 0x200 ↔
    x &&& ~~~0x202 = y &&& ~~~0x202 := by
  rw [UInt32.or_assoc, UInt32.or_assoc, ← UInt32.toBitVec_inj, ← UInt32.toBitVec_inj]
  exact or_eq_or_iff x.toBitVec y.toBitVec 0x202#32

section

variable {L : Linkage} {s t s' t' : Kernel} {r : ProcessRequest} {p q : Fin 16} {d : Fin 32}

/-- **What a new control block keeps of the old one.** -/
theorem newPcb_eq_iff {b b' : ProcessControlBlock} :
    newPcb L r p d b' = newPcb L r p d b ↔ SameLeftovers b.context b'.context := by
  constructor
  · intro h
    have hc : new_context b'.context r.buf (L.dir d) = new_context b.context r.buf (L.dir d) :=
      congrArg ProcessControlBlock.context h
    simp only [new_context, Context.mk.injEq, CPURegister.mk.injEq, flags_eq_iff] at hc
    obtain ⟨⟨hedi, hesi, -, -, hebx, hedx, hecx, heax, -⟩, -, hflags, -⟩ := hc
    exact ⟨hedi, hesi, hebx, hedx, hecx, heax, hflags⟩
  · rintro ⟨hedi, hesi, hebx, hedx, hecx, heax, hflags⟩
    have hflags := (flags_eq_iff _ _).mpr hflags
    simp only [newPcb, new_context, hedi, hesi, hebx, hedx, hecx, heax, hflags]

/-- **The two creations go the same way.** -/
theorem create_agrees (h : AgreeOnLive s t) (L : Linkage) (r : ProcessRequest) :
    (process_create_user_process L t r).map Prod.fst = (process_create_user_process L s r).map Prod.fst := by
  have hinactive : process_list_get_inactive_index t = process_list_get_inactive_index s := by
    rw [process_list_get_inactive_index, h.list, process_list_get_inactive_index]
  rw [create_eq, create_eq, h.count, h.paging, hinactive]
  split_ifs
  · rfl
  · rfl
  · rfl
  · rcases process_list_get_inactive_index s with _ | p
    · rfl
    · have hpaging : (claim t p).paging = (claim s p).paging := h.paging
      rw [create_admitted, create_admitted, hpaging]
      rcases paging_create_new_page_directory (claim s p).paging with _ | ⟨d, q⟩
      · rfl
      · rfl

/-- A slot that a creation made live is the first one that was free. -/
theorem Created.slot_of_live (h : Created L s s' r q d) (hp : s.list_of_process p = false)
    (hp' : s'.list_of_process p = true) : q = p :=
  ((becomes_live_iff h.slot.1 h.list).mp ⟨hp, hp'⟩).symm

theorem FirstWith.unique {n : ℕ} {P : Fin n → Prop} {i j : Fin n} (hi : FirstWith P i) (hj : FirstWith P j) :
    i = j := by
  rcases lt_trichotomy i j with hlt | rfl | hlt
  · exact absurd hi.1 (hj.2 i hlt)
  · rfl
  · exact absurd hj.1 (hi.2 j hlt)

/-- **When a new process inherits nothing**: the control blocks that were in its slot have the same general
registers, and the same flags but the two that creation sets. -/
theorem creation_inherits_iff (L : Linkage) (h : AgreeOnLive s t) (r : ProcessRequest) :
    (process_create_user_process L t r).map Prod.fst = (process_create_user_process L s r).map Prod.fst ∧
    ∀ s' t' p, process_create_user_process L s r = .ok (0, s') →
      process_create_user_process L t r = .ok (0, t') →
      s.list_of_process p = false → s'.list_of_process p = true →
      (t'.process_list p = s'.process_list p ↔
        SameLeftovers (s.process_list p).context (t.process_list p).context) := by
  refine ⟨create_agrees h L r, fun s' t' p hs ht hp hp' => ?_⟩
  rcases create_cases hs with ⟨h0, -⟩ | ⟨h3, -⟩ | ⟨-, q, d, hs⟩
  · exact absurd rfl h0
  · exact absurd h3 (by decide)
  rcases create_cases ht with ⟨h0, -⟩ | ⟨h3, -⟩ | ⟨-, q', d', ht⟩
  · exact absurd rfl h0
  · exact absurd h3 (by decide)
  have hslot := ht.slot
  have hdir := ht.dir
  rw [h.list] at hslot
  rw [h.paging] at hdir
  obtain rfl := hs.slot_of_live hp hp'
  obtain rfl := hs.slot.unique hslot
  obtain rfl := hs.dir.unique hdir
  rw [hs.pcbs, ht.pcbs, Function.update_self, Function.update_self]
  exact newPcb_eq_iff

end

/-- The state at boot, but with register and flags left in the first control block. -/
def usedSlot (eax eflags : UInt32) : Kernel :=
  (Kernel.initial someLinkage).modify 0 fun b =>
    { b with context := { b.context with cpu := { b.context.cpu with eax := eax }, eflags := eflags } }

theorem agreeOnLive_usedSlot (a b a' b' : UInt32) : AgreeOnLive (usedSlot a b) (usedSlot a' b') :=
  ⟨rfl, rfl, rfl, fun _ hi => absurd hi (by simp [usedSlot, Kernel.initial, Kernel.modify])⟩

/-- Creation in that state returns 0 and takes slot 0. -/
theorem create_usedSlot (eax eflags : UInt32) (q : ProcessControlBlock → Bool)
    (h : (match process_create_user_process someLinkage (usedSlot eax eflags) shellRequest with
      | .ok (code, s') => decide (code = 0 ∧ s'.list_of_process 0 = true) && q (s'.process_list 0)
      | .error _ => false) = true) :
    ∃ s', process_create_user_process someLinkage (usedSlot eax eflags) shellRequest = .ok (0, s') ∧
      s'.list_of_process 0 = true ∧ q (s'.process_list 0) = true := by
  split at h
  · rename_i code s' hc
    rw [Bool.and_eq_true, decide_eq_true_eq] at h
    obtain ⟨⟨rfl, hlive⟩, hq⟩ := h
    exact ⟨s', hc, hlive, hq⟩
  · exact absurd h (by simp)

/-- Leftovers that differ in a flag that creation sets are not inherited. -/
theorem creation_inherits_nothing : ∃ s' t',
    process_create_user_process someLinkage (usedSlot 0 0) shellRequest = .ok (0, s') ∧
    process_create_user_process someLinkage (usedSlot 0 0x202) shellRequest = .ok (0, t') ∧
    t'.process_list 0 = s'.process_list 0 := by
  obtain ⟨s', hs, hs', -⟩ := create_usedSlot 0 0 (fun _ => true) (by decide +kernel)
  obtain ⟨t', ht, -⟩ := create_usedSlot 0 0x202 (fun _ => true) (by decide +kernel)
  have hagree := agreeOnLive_usedSlot 0 0 0 0x202
  exact ⟨s', t', hs, ht, ((creation_inherits_iff someLinkage hagree shellRequest).2 s' t' 0 hs ht rfl hs').mpr
    ⟨rfl, rfl, rfl, rfl, rfl, rfl, rfl⟩⟩

/-- A register of the process that had the slot is in the context of the new one. -/
theorem creation_inherits_register : ∃ s t s' t', AgreeOnLive s t ∧ s.list_of_process 0 = false ∧
    process_create_user_process someLinkage s shellRequest = .ok (0, s') ∧
    process_create_user_process someLinkage t shellRequest = .ok (0, t') ∧ s'.list_of_process 0 = true ∧
    (s'.process_list 0).context.cpu.eax = 0 ∧ (t'.process_list 0).context.cpu.eax = 7 := by
  obtain ⟨s', hs, hs', heax⟩ := create_usedSlot 0 0 (fun b => b.context.cpu.eax == 0) (by decide +kernel)
  obtain ⟨t', ht, -, heax'⟩ := create_usedSlot 7 0 (fun b => b.context.cpu.eax == 7) (by decide +kernel)
  exact ⟨usedSlot 0 0, usedSlot 7 0, s', t', agreeOnLive_usedSlot 0 0 7 0, rfl, hs, ht, hs',
    eq_of_beq heax, eq_of_beq heax'⟩

end KeropOS
