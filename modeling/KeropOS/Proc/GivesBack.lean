import KeropOS.Proc.Admission
import KeropOS.Proc.Table

/-!
# What destruction gives back

A run in which a process is created and destroyed, and the same run without this process.

* `GivesBack`: the counters at the end of the two runs; `WithAndWithout`: the two runs;
* `Tally`: what is taken and given back in a run, by the states before its calls;
* **`Accounts.step`**: the counters follow the tally; `Balanced`: two tallies with the same counters;
* **`destroy_gives_back_iff`**: when everything is given back.
-/

namespace KeropOS

open Transition

/-! ## The property -/

/-- The same is free, unused and live in both states. -/
structure GivesBack (s t : Kernel) : Prop where
  frames : freeFrames s.paging = freeFrames t.paging
  frame_count : s.paging.free_page_frame_count = t.paging.free_page_frame_count
  directories : unusedDirectories s.paging = unusedDirectories t.paging
  slots : liveSlots s = liveSlots t
  active : s.active_process_count = t.active_process_count

/-- The same call. The number that a process has may differ from run to run, and so may what comes of the
call. -/
def Event.SameCall : Event → Event → Prop
  | .create r _, .create r' _ => r = r'
  | .destroy _ _, .destroy _ _ => True
  | .tick _ _ _, .tick _ _ _ => True
  | _, _ => False

/-! ## What a run takes -/

/-- Slot `pid` is live. -/
def Lives (s : Kernel) (pid : UInt32) : Prop :=
  ∃ p : Fin 16, pid = UInt32.ofNat p ∧ s.list_of_process p = true

/-- The destruction of `pid` gives directory 0 back: it is that of slot 0, which is live, and no other control
block has the number 0. -/
structure FreesDirectory (L : Linkage) (s : Kernel) (pid : UInt32) : Prop where
  pid : pid = 0
  live : s.list_of_process 0 = true
  dir : s.dirOf 0 = L.dir 0
  others : ∀ j ≠ 0, (s.process_list j).pid ≠ 0

instance (reading : Reading) (s : Kernel) (r : ProcessRequest) : Decidable (Admitted reading s r) :=
  decidable_of_iff (s.active_process_count.toNat < 16 ∧ r.buf.toNat < 0xC0000000 ∧
      allocate_check_as reading s.paging (needed_as reading r.buffer_size) = true ∧
      needed_as reading r.buffer_size ≤ 8)
    ⟨fun h => ⟨h.1, h.2.1, h.2.2.1, h.2.2.2⟩, fun h => ⟨h.count, h.buf, h.frames, h.size⟩⟩

instance (s : Kernel) (pid : UInt32) : Decidable (Lives s pid) := by unfold Lives; infer_instance

instance (L : Linkage) (s : Kernel) (pid : UInt32) : Decidable (FreesDirectory L s pid) :=
  decidable_of_iff (pid = 0 ∧ s.list_of_process 0 = true ∧ s.dirOf 0 = L.dir 0 ∧
      ∀ j ≠ 0, (s.process_list j).pid ≠ 0)
    ⟨fun h => ⟨h.1, h.2.1, h.2.2.1, h.2.2.2⟩, fun h => ⟨h.pid, h.live, h.dir, h.others⟩⟩

/-- A page directory is unused. -/
def HasDirectory (s : Kernel) : Prop := ∃ d, s.paging.page_directory_used d = false

instance (s : Kernel) : Decidable (HasDirectory s) := by unfold HasDirectory; infer_instance

/-- The calls of a run: creations that pass the checks, those of them that find a page directory, destructions
of live slots, and those of them that give directory 0 back. -/
structure Tally where
  claimed : ℕ := 0
  housed : ℕ := 0
  ended : ℕ := 0
  freed : ℕ := 0

/-- One more call, in the state `s`. -/
def Tally.call (L : Linkage) (s : Kernel) (e : Event) (a : Tally) : Tally :=
  match e with
  | .create r _ =>
    { a with
      claimed := a.claimed + if Admitted .single s r then 1 else 0
      housed := a.housed + if Admitted .single s r ∧ HasDirectory s then 1 else 0 }
  | .destroy pid _ =>
    { a with
      ended := a.ended + if Lives s pid then 1 else 0
      freed := a.freed + if FreesDirectory L s pid then 1 else 0 }
  | .tick _ _ _ => a

/-- The steps of the kernel, with the tally of their calls. -/
abbrev Tallied (L : Linkage) : Kernel × Tally → Event → Kernel × Tally → Prop :=
  recorded (KStep L) fun s e _ a => a.call L s e

/-- A run in which process `p` is created, up to its destruction, and the same run without this process, with
their tallies. -/
structure WithAndWithout (L : Linkage) (s s₁ s₂ t : Kernel) (r : ProcessRequest) (p : Fin 16)
    (a b : Tally) : Prop where
  reached : ∃ es, Run (KStep L) (.initial L) es s
  created : process_create_user_process L s r = .ok (0, s₁)
  slot : s.list_of_process p = false ∧ s₁.list_of_process p = true
  runs : ∃ es es', Run (Tallied L) (s₁, Tally.call L s (.create r 0) {}) es (s₂, a) ∧
    .destroy (UInt32.ofNat p) true ∉ es ∧ Run (Tallied L) (s, {}) es' (t, b) ∧
      List.Forall₂ Event.SameCall es es'

/-- Two tallies leave the same, when `free` page frames are free at first: each creation with a directory takes
two of them, as long as there are any. -/
structure Balanced (free : ℕ) (a b : Tally) : Prop where
  slots : a.claimed + b.ended = b.claimed + a.ended
  directories : a.housed + b.freed = b.housed + a.freed
  frames : a.housed = b.housed ∨ free ≤ 2 * a.housed ∧ free ≤ 2 * b.housed

instance (free : ℕ) (a b : Tally) : Decidable (Balanced free a b) :=
  decidable_of_iff (a.claimed + b.ended = b.claimed + a.ended ∧ a.housed + b.freed = b.housed + a.freed ∧
      (a.housed = b.housed ∨ free ≤ 2 * a.housed ∧ free ≤ 2 * b.housed))
    ⟨fun h => ⟨h.1, h.2.1, h.2.2⟩, fun h => ⟨h.slots, h.directories, h.frames⟩⟩

/-! ## The counters follow the tally -/

/-- From `s` on, with the tally `a`. -/
structure Accounts (s t : Kernel) (a : Tally) : Prop where
  slots : liveSlots t + a.ended = liveSlots s + a.claimed
  directories : unusedDirectories t.paging + a.housed = unusedDirectories s.paging + a.freed
  frames : freeFrames t.paging = freeFrames s.paging - 2 * a.housed

theorem Accounts.nil (s : Kernel) : Accounts s s {} := ⟨rfl, rfl, rfl⟩

variable {L : Linkage} {s t t' : Kernel} {r : ProcessRequest} {p i : Fin 16} {d : Fin 32} {a b : Tally}
  {pid : UInt32}

theorem lives_iff : Lives t (UInt32.ofNat p) ↔ t.list_of_process p = true := by
  constructor
  · rintro ⟨q, hq, hlive⟩
    rwa [ofNat_injective p q hq]
  · exact fun h => ⟨p, rfl, h⟩

/-- A destruction that does nothing is of no live slot. -/
theorem not_lives_of_unchanged (hs : KInv L t) (h : process_destroy L t pid = .ok (false, t')) :
    ¬ Lives t pid := by
  rintro ⟨q, rfl, hlive⟩
  obtain ⟨t₁, -, hdestroy, -⟩ := destroy_returns L hlive (hs.pid_of_live hlive)
  rw [hdestroy] at h
  exact absurd h (by simp)

theorem Destroyed.frees_iff (h : Destroyed L t t' p i) (hs : KInv L t) :
    FreesDirectory L t (UInt32.ofNat p) ↔ L.dir 0 = t.dirOf i := by
  rw [h.drops_iff hs]
  constructor
  · rintro ⟨hpid, -, hdir, hothers⟩
    exact ⟨ofNat_injective p 0 hpid, hdir, hothers⟩
  · rintro ⟨rfl, hdir, hothers⟩
    exact ⟨rfl, h.live, hdir, hothers⟩

namespace Accounts

/-- A creation that passes the checks without a directory takes a slot. -/
theorem claimed (h : Accounts s t a) (hc : Claimed t t' p) (ha : Admitted .single t r) (code : ℤ) :
    Accounts s t' (a.call L t (.create r code)) := by
  have hnone : ¬ (Admitted .single t r ∧ HasDirectory t) := by
    rintro ⟨-, d, hd⟩
    rw [hc.dirs d] at hd
    exact absurd hd (by simp)
  have hlive : liveSlots t' = liveSlots t + 1 := liveSlots_set hc.slot.1 (by rw [hc.eq]; rfl)
  have hpaging : t'.paging = t.paging := by rw [hc.eq]; rfl
  simp only [Tally.call, if_pos ha, if_neg hnone]
  refine ⟨?_, ?_, ?_⟩
  · have := h.slots
    simp only
    omega
  · rw [hpaging]
    exact h.directories
  · rw [hpaging]
    exact h.frames

/-- A creation that succeeds takes a slot, a directory, and two frames. -/
theorem created (h : Accounts s t a) (ht : InBudget L t) (hc : Created L t t' r p d)
    (ha : Admitted .single t r) (code : ℤ) : Accounts s t' (a.call L t (.create r code)) := by
  have hdir : Admitted .single t r ∧ HasDirectory t := ⟨ha, d, hc.dir.1⟩
  have hlive : liveSlots t' = liveSlots t + 1 := liveSlots_set hc.slot.1 hc.list
  have hused := hc.took_directory ht.inv
  have hframes := (hc.counts ht.inv ht.budget).1
  simp only [Tally.call, if_pos ha, if_pos hdir]
  refine ⟨?_, ?_, ?_⟩
  · have := h.slots
    simp only
    omega
  · have := h.directories
    simp only
    omega
  · rw [hframes, h.frames]
    simp only
    omega

/-- A destruction of a live slot gives the slot back, and directory 0 at most. -/
theorem destroyed (h : Accounts s t a) (ht : InBudget L t) (hd : Destroyed L t t' p i) (result : Bool) :
    Accounts s t' (a.call L t (.destroy (UInt32.ofNat p) result)) := by
  have hlive : liveSlots t' + 1 = liveSlots t := liveSlots_clear hd.live hd.list
  have hgave := hd.directories ht.inv
  have hfree : freeFrames t'.paging = freeFrames t.paging := by rw [freeFrames, hd.frames.1, freeFrames]
  simp only [Tally.call, if_pos (lives_iff.mpr hd.live), hd.frees_iff ht.inv]
  refine ⟨?_, ?_, ?_⟩
  · have := h.slots
    simp only
    omega
  · have := h.directories
    simp only [hgave]
    omega
  · rw [hfree]
    exact h.frames

/-- A call that does nothing. -/
theorem refused (h : Accounts s t a) (ht : InBudget L t) (hd : process_destroy L t pid = .ok (false, t'))
    (result : Bool) : Accounts s t (a.call L t (.destroy pid result)) := by
  have hdead := not_lives_of_unchanged ht.inv hd
  have hkept : ¬ FreesDirectory L t pid := fun hr => hdead ⟨0, hr.pid, hr.live⟩
  simp only [Tally.call, if_neg hdead, if_neg hkept]
  exact h

/-- **The step lemma.** -/
theorem step {e : Event} (h : Accounts s t a) (ht : InBudget L t) (hstep : KStep L t e t') :
    Accounts s t' (a.call L t e) := by
  cases e with
  | create r code =>
    have hcreate : create_as .single L t r = .ok (code, t') := by rwa [create_as_single]
    rcases create_as_cases hcreate with ⟨hno, -, rfl⟩ | ⟨ha, -, p, hc⟩ | ⟨ha, -, p, d, hc⟩
    · have hno' : ¬ (Admitted .single t' r ∧ HasDirectory t') := fun hyes => hno hyes.1
      simp only [Tally.call, if_neg hno, if_neg hno']
      exact h
    · exact h.claimed hc ha code
    · exact h.created ht hc ha code
  | destroy pid result =>
    have hdestroy : process_destroy L t pid = .ok (result, t') := hstep
    rcases destroy_cases hdestroy with ⟨rfl, rfl⟩ | ⟨-, p, i, rfl, hd⟩
    · exact h.refused ht hdestroy false
    · exact h.destroyed ht hd result
  | tick cpu next cpu' =>
    obtain ⟨fuel, hstep⟩ := hstep
    have htick := tick_cases hstep
    refine ⟨?_, ?_, ?_⟩
    · rw [liveSlots, htick.list]
      exact h.slots
    · rw [unusedDirectories, htick.paging, use_page_directory_used]
      exact h.directories
    · rw [freeFrames, htick.paging, use_page_frame_map]
      exact h.frames

/-- **The run lemma.** -/
theorem run {es : List Event} {x y : Kernel × Tally} (hx : InBudget L x.1) (h : Accounts s x.1 x.2)
    (hrun : Run (Tallied L) x es y) : InBudget L y.1 ∧ Accounts s y.1 y.2 := by
  refine Run.invariant_recorded (InBudget L) (Accounts s) ?_ ?_ hrun hx h
  · intro t e t' ht hstep
    rw [← kstepAs_single] at hstep
    exact inBudget_step t e t' ht hstep
  · exact fun t e t' a ht ha hstep => ha.step ht hstep

end Accounts

/-! ## The result -/

/-- The counters are those of the frames and the slots. -/
theorem givesBack_of_counts (hs : InBudget L s) (ht : InBudget L t) (hs' : Counted s) (ht' : Counted t)
    (hframes : freeFrames s.paging = freeFrames t.paging)
    (hdirs : unusedDirectories s.paging = unusedDirectories t.paging) (hslots : liveSlots s = liveSlots t) :
    GivesBack s t where
  frames := hframes
  frame_count := UInt32.toNat_inj.mp (by rw [hs.budget.count, ht.budget.count, hframes])
  directories := hdirs
  slots := hslots
  active := UInt32.toNat_inj.mp (hs'.trans (hslots.trans ht'.symm))

theorem givesBack_iff {s₀ : Kernel} (hs : InBudget L s) (ht : InBudget L t) (hs' : Counted s)
    (ht' : Counted t) (h : Accounts s₀ s a) (h' : Accounts s₀ t b) :
    GivesBack s t ↔ Balanced (freeFrames s₀.paging) a b := by
  have hslots := h.slots
  have hslots' := h'.slots
  have hdirs := h.directories
  have hdirs' := h'.directories
  have hframes := h.frames
  have hframes' := h'.frames
  constructor
  · intro hback
    have h1 := hback.slots
    have h2 := hback.directories
    have h3 := hback.frames
    exact ⟨by omega, by omega, by omega⟩
  · rintro ⟨h1, h2, h3⟩
    exact givesBack_of_counts hs ht hs' ht' (by omega) (by omega) (by omega)

theorem counted_run {es : List Event} {x y : Kernel × Tally} (hx : Counted x.1) (h : Run (Tallied L) x es y) :
    Counted y.1 := h.unrecorded.invariant Counted (counted_step L) hx

/-- The process stays until it is destroyed. -/
theorem lives_run {es : List Event} {s₁ s₂ : Kernel} (hs : KInv L s₁) (hlive : s₁.list_of_process p = true)
    (h : Run (KStep L) s₁ es s₂) (hstay : .destroy (UInt32.ofNat p) true ∉ es) :
    s₂.list_of_process p = true :=
  (h.invariant_mem (fun t => KInv L t ∧ t.list_of_process p = true) (fun s t e he hI hstep =>
    ⟨kinv_step L s e t hI.1 hstep, (stays_live hI.1 hI.2 (fun hd => hstay (hd ▸ he)) hstep).1⟩) ⟨hs, hlive⟩).2

/-- **When everything is given back.** The destruction of a process that was created returns true, and what is
then free is what is free in the same run without this process, if and only if the tallies of the two runs
balance. -/
theorem destroy_gives_back_iff (L : Linkage) (s s₁ s₂ t : Kernel) (r : ProcessRequest) (p : Fin 16)
    (a b : Tally) (h : WithAndWithout L s s₁ s₂ t r p a b) :
    (∃ s₃, process_destroy L s₂ (UInt32.ofNat p) = .ok (true, s₃) ∧ GivesBack s₃ t) ↔
      Balanced (freeFrames s.paging) (a.call L s₂ (.destroy (UInt32.ofNat p) true)) b := by
  obtain ⟨⟨es₀, hreached⟩, hcreate, hslot, es, es', hwith, hstay, hwithout, -⟩ := h
  have hs : InBudget L s := inBudget_of_run ((kstepAs_single L).symm ▸ hreached)
  have hcount := counted_of_run hreached
  have hstep : KStep L s (.create r 0) s₁ := hcreate
  have hs₁ : InBudget L s₁ := inBudget_step s _ s₁ hs ((kstepAs_single L).symm ▸ hstep)
  obtain ⟨hs₂, hwith₂⟩ := Accounts.run (s := s) hs₁ ((Accounts.nil s).step hs hstep) hwith
  obtain ⟨ht, hwithout'⟩ := Accounts.run (s := s) hs (.nil s) hwithout
  have hlive : s₂.list_of_process p = true := lives_run hs₁.inv hslot.2 hwith.unrecorded hstay
  obtain ⟨s₃, i, hdestroy, hd⟩ := destroy_returns L hlive (hs₂.inv.pid_of_live hlive)
  have hstep₃ : KStep L s₂ (.destroy (UInt32.ofNat p) true) s₃ := hdestroy
  have hs₃ : InBudget L s₃ := inBudget_step s₂ _ s₃ hs₂ ((kstepAs_single L).symm ▸ hstep₃)
  have hcount₃ : Counted s₃ :=
    counted_step L _ _ _ (counted_run (counted_step L _ _ _ hcount hstep) hwith) hstep₃
  rw [← givesBack_iff hs₃ ht hcount₃ (counted_run hcount hwithout) (hwith₂.step hs₂ hstep₃) hwithout']
  constructor
  · rintro ⟨t₃, ht₃, hback⟩
    rw [hdestroy] at ht₃
    obtain ⟨-, rfl⟩ := Prod.mk.inj (Except.ok.inj ht₃)
    exact hback
  · exact fun hback => ⟨s₃, hdestroy, hback⟩

/-- A program without a name, that is not read from a file, of the size that needs no frame. -/
def emptyRequest : ProcessRequest := { shellRequest with name := 0, buffer_size := 0xFFC00000 }

/-- With all 31 frames taken and all 16 slots used before, slot 0 and directory 0 come and go, and slot 5 is
freed meanwhile. -/
theorem destroy_gives_back_full : ∃ s s₁ s₂ s₃ t a b,
    WithAndWithout someLinkage s s₁ s₂ t emptyRequest 0 a b ∧
    process_destroy someLinkage s₂ 0 = .ok (true, s₃) ∧ GivesBack s₃ t := by
  obtain ⟨es₀, s, _, hreached, hq⟩ := exists_run (perform someLinkage) perform_step (fun _ _ _ => id)
    (.initial someLinkage, ()) (List.replicate 16 (.create shellRequest) ++ [.destroy 0] : List Action)
    (fun _ s _ =>
      match process_create_user_process someLinkage s emptyRequest, process_destroy someLinkage s 5 with
      | .ok (code, s₁), .ok (result, _) =>
        match process_destroy someLinkage s₁ 5 with
        | .ok (result', s₂) =>
          let a := Tally.call someLinkage s (.create emptyRequest 0) {}
          let a := (a.call someLinkage s₁ (.destroy 5 true)).call someLinkage s₂ (.destroy 0 true)
          let b := Tally.call someLinkage s (.destroy 5 true) {}
          decide (code = 0 ∧ result = true ∧ result' = true ∧ s.list_of_process 0 = false ∧
            s₁.list_of_process 0 = true ∧ Balanced (freeFrames s.paging) a b)
        | .error _ => false
      | _, _ => false) (by decide +kernel)
  split at hq
  · rename_i code s₁ result t hcreate hfirst
    split at hq
    · rename_i result' s₂ hsecond
      obtain ⟨rfl, rfl, rfl, hp, hp', hbalanced⟩ := of_decide_eq_true hq
      have hruns : WithAndWithout someLinkage s s₁ s₂ t emptyRequest 0 _ _ :=
        ⟨⟨es₀, hreached.unrecorded⟩, hcreate, ⟨hp, hp'⟩, [.destroy 5 true], [.destroy 5 true],
          .single ⟨hsecond, rfl⟩, fun h => absurd (Event.destroy.inj (List.mem_singleton.mp h)).1 (by decide),
          .single ⟨hfirst, rfl⟩, .cons trivial .nil⟩
      obtain ⟨s₃, hdestroy, hback⟩ :=
        (destroy_gives_back_iff someLinkage s s₁ s₂ t _ 0 _ _ hruns).mpr hbalanced
      exact ⟨s, s₁, s₂, s₃, t, _, _, hruns, hdestroy, hback⟩
    · exact absurd hq (by simp)
  · exact absurd hq (by simp)

/-- The shell is created at boot and destroyed: two of 31 frames are lost. -/
theorem shell_frames_lost : ∃ s₁ s₃,
    process_create_user_process someLinkage (.initial someLinkage) shellRequest = .ok (0, s₁) ∧
    process_destroy someLinkage s₁ 0 = .ok (true, s₃) ∧
    freeFrames (Kernel.initial someLinkage).paging = 31 ∧ freeFrames s₃.paging = 29 ∧
    ¬ GivesBack s₃ (.initial someLinkage) := by
  have h : ((process_create_user_process someLinkage (.initial someLinkage) shellRequest).toOption.any fun c =>
      (process_destroy someLinkage c.2 0).toOption.any fun d =>
        decide (c.1 = 0 ∧ d.1 = true ∧ freeFrames d.2.paging = 29)) = true := by decide +kernel
  revert h
  rcases process_create_user_process someLinkage (.initial someLinkage) shellRequest with _ | ⟨code, s₁⟩
  · exact fun h => absurd h (by simp [Except.toOption])
  intro h
  rcases hdestroy : process_destroy someLinkage s₁ 0 with _ | ⟨result, s₃⟩
  · exact absurd h (by simp [Except.toOption, hdestroy])
  simp only [Except.toOption, Option.any_some, hdestroy] at h
  obtain ⟨rfl, rfl, h₃⟩ := of_decide_eq_true h
  have h₀ : freeFrames (Kernel.initial someLinkage).paging = 31 := by decide
  refine ⟨s₁, s₃, rfl, hdestroy, h₀, h₃, fun hback => ?_⟩
  have := hback.frames
  omega

end KeropOS
