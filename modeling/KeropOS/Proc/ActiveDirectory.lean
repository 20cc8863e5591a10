import KeropOS.Proc.Invariant

/-!
# The page directory in use

Two kinds of steps leave CR3 with a page directory that is not valid: the process of slot 0 destroys
itself while directory 0 is loaded, and a tick goes to a slot whose creation found no directory.

* `Valid`: the directory in CR3 is in use, with the kernel's entry; `Keeps`: the steps that are
  neither of the two;
* **`KInv.valid_iff`**: exactly these steps keep CR3 valid;
* **`active_directory_valid`**: a run of such steps keeps it valid after its first switch.
-/

namespace KeropOS

open PROCESS_STATE RoundRobin Transition

/-! ## The property -/

/-- CR3 has a page directory loaded that is in use, and whose entry `0x300` maps frame 0. -/
def Valid (L : Linkage) (s : Kernel) : Prop :=
  ∃ k, s.paging.cr3 = physical_addr_page_dir (L.dir k) ∧ s.paging.page_directory_used k = true ∧
    (s.paging.page_directory_list k 0x300).flag.present_bit = true ∧
    (s.paging.page_directory_list k 0x300).lower_address = 0

instance (L : Linkage) (s : Kernel) : Decidable (Valid L s) :=
  inferInstanceAs (Decidable (∃ _, _ ∧ _ ∧ _ ∧ _))

/-- Destroying slot 0 now clears directory 0 while it is loaded. -/
def ClearsActive (L : Linkage) (s : Kernel) (pid : UInt32) : Prop :=
  pid = 0 ∧ s.list_of_process 0 = true ∧ (∀ i ≠ 0, (s.process_list i).pid ≠ 0) ∧
    s.dirOf 0 = L.dir 0 ∧ s.paging.cr3 = physical_addr_page_dir (L.dir 0)

/-- The live slot that comes next has a page directory. -/
def NextHasDirectory (L : Linkage) (s : Kernel) : Prop :=
  ∀ i, FirstFrom (fun i => s.list_of_process i = true)
    (wrap ((s.process_list (currentSlot s)).pid + 1).toNat) i → ∃ k, s.dirOf i = L.dir k

/-- The step does not clear the directory in use, nor go to a slot without one. -/
def Keeps (L : Linkage) (s : Kernel) : Event → Prop
  | .create _ _ => True
  | .destroy pid _ => ¬ ClearsActive L s pid
  | .tick _ _ _ => NextHasDirectory L s

instance (L : Linkage) (s : Kernel) (pid : UInt32) : Decidable (ClearsActive L s pid) :=
  inferInstanceAs (Decidable (_ ∧ _ ∧ _ ∧ _ ∧ _))

instance (L : Linkage) (s : Kernel) : Decidable (NextHasDirectory L s) :=
  inferInstanceAs (Decidable (∀ _, _ → ∃ _, _))

instance (L : Linkage) (s : Kernel) (e : Event) : Decidable (Keeps L s e) :=
  match e with
  | .create _ _ => .isTrue trivial
  | .destroy pid _ => inferInstanceAs (Decidable (¬ ClearsActive L s pid))
  | .tick _ _ _ => inferInstanceAs (Decidable (NextHasDirectory L s))

/-! ## The steps -/

theorem physical_dir_injective {L : Linkage} {i j : Fin 32}
    (h : physical_addr_page_dir (L.dir i) = physical_addr_page_dir (L.dir j)) : i = j := by
  have := congrArg (· + KERNEL_VIRTUAL_ADDRESS_BASE) h
  exact L.dir_injective ((reload_dir L i).symm.trans (this.trans (reload_dir L j)))

/-- No junk is the physical address of a directory. -/
theorem Junk.ne_physical {a : UInt32} (h : Junk a) (L : Linkage) (k : Fin 32) :
    a ≠ physical_addr_page_dir (L.dir k) := by
  intro ha
  have hk := reload_dir L k
  rw [reload, ← ha] at hk
  exact h.add.ne_dir L k hk

section

variable {L : Linkage} {s s' : Kernel} {r : ProcessRequest} {p i : Fin 16} {d : Fin 32}

theorem valid_of_used (hs : KInv L s) {k : Fin 32} (hcr3 : s.paging.cr3 = physical_addr_page_dir (L.dir k))
    (hu : s.paging.page_directory_used k = true) : Valid L s := by
  refine ⟨k, hcr3, hu, ?_⟩
  rw [hs.paging.kernel hu]
  exact ⟨rfl, rfl⟩

/-- Creation loads the new directory and goes back. -/
theorem Created.valid (h : Created L s s' r p d) (hs : KInv L s) (hv : Valid L s) : Valid L s' := by
  obtain ⟨k, hcr3, hu, -⟩ := hv
  refine valid_of_used (h.kinv hs) (k := k) ?_ (h.used_mono hs hu)
  rw [h.cr3, hcr3]
  exact congrArg physical_addr_page_dir (reload_dir L k)

/-- **What destruction does to the directory in use.** -/
theorem Destroyed.valid_iff (h : Destroyed L s s' p i) (hs : KInv L s) (hv : Valid L s) :
    Valid L s' ↔ ¬ ClearsActive L s (UInt32.ofNat p) := by
  obtain ⟨k, hcr3, hu, -⟩ := hv
  constructor
  · rintro ⟨k', hcr3', hu', -⟩ ⟨hp, -, hpid, hdir, hzero⟩
    have hi : i = 0 := by
      by_contra hi
      exact hpid i hi (h.found.1.trans hp)
    rw [h.cr3, hzero] at hcr3'
    obtain rfl := physical_dir_injective hcr3'
    rw [h.paging, hi, if_pos hdir.symm] at hu'
    simp only [dropDirectory, Function.update_self] at hu'
    exact absurd hu' (by simp)
  · intro hclear
    refine valid_of_used (h.kinv hs) (k := k) (h.cr3.trans hcr3) ?_
    by_cases hk : k = 0
    · subst hk
      rw [h.paging, if_neg, hu]
      intro hdrop
      obtain ⟨rfl, rfl⟩ := h.dir_zero hs hdrop.symm
      exact hclear ⟨rfl, h.live, fun j hj => h.found.2 j (Fin.pos_of_ne_zero hj), hdrop.symm, hcr3⟩
    · rw [h.used_of_ne hk, hu]

variable {cpu cpu' : Cpu} {next : Fin 16}

/-- **What a tick loads.** -/
theorem Ticked.valid_iff (h : Ticked L s s' cpu next cpu') (hs : KInv L s) :
    Valid L s' ↔ NextHasDirectory L s := by
  constructor
  · rintro ⟨k, hcr3, -⟩ i hi
    obtain rfl := hi.unique h.chosen
    rcases savedContext_dir hs cpu i with ⟨k', hk', -⟩ | ⟨-, hj⟩
    · exact ⟨k', hk'⟩
    · rw [h.paging, use_cr3, hj.physical] at hcr3
      exact absurd hcr3 (hj.ne_physical L k)
  · intro hdir
    obtain ⟨k, hk⟩ := hdir next h.chosen
    have hloaded := (savedContext_dir_iff hs cpu next k).mpr hk
    refine valid_of_used (h.kinv hs) (k := k) (by rw [h.paging, use_cr3, hloaded]) ?_
    rw [h.paging, use_page_directory_used]
    by_cases hk0 : k = 0
    · -- directory 0 goes with slot 0, which is live
      subst hk0
      have hlive : s.list_of_process next = true := h.chosen.1
      rw [hs.dir_zero hk] at hlive
      by_contra hu
      rw [hs.slot_zero (by simpa using hu)] at hlive
      exact absurd hlive (by simp)
    · exact hs.dir_used hk hk0

end

/-- **Exactly the steps of `Keeps` keep CR3 valid.** -/
theorem KInv.valid_iff {L : Linkage} {s s' : Kernel} {e : Event} (hs : KInv L s) (hv : Valid L s)
    (h : KStep L s e s') : Valid L s' ↔ Keeps L s e := by
  cases e with
  | create r code =>
    refine iff_of_true ?_ trivial
    rcases create_cases h with ⟨-, rfl⟩ | ⟨-, p, -, -, rfl⟩ | ⟨-, p, d, hc⟩
    · exact hv
    · exact hv
    · exact hc.valid hs hv
  | destroy pid result =>
    rcases destroy_cases h with ⟨rfl, rfl⟩ | ⟨-, p, i, rfl, hd⟩
    · refine iff_of_true hv ?_
      rintro ⟨rfl, hlive, -⟩
      -- slot 0 is live, so destruction would have returned true
      obtain ⟨t, i, hd, -⟩ := destroy_returns L hlive (hs.pid_of_live hlive)
      have hfalse : process_destroy L s' (UInt32.ofNat (0 : Fin 16).val) = .ok (false, s') := h
      rw [hfalse] at hd
      exact absurd hd (by simp)
    · exact hd.valid_iff hs hv
  | tick cpu next cpu' =>
    obtain ⟨fuel, h⟩ := h
    exact (tick_cases h).valid_iff hs

/-! ## The result -/

/-- Whether the first switch has been made. -/
def switched (_ : Kernel) (e : Event) (_ : Kernel) (b : Bool) : Bool :=
  match e with
  | .tick _ _ _ => true
  | _ => b

/-- The steps of the kernel that keep CR3 valid. -/
def CarefulStep (L : Linkage) (s : Kernel) (e : Event) (s' : Kernel) : Prop := KStep L s e s' ∧ Keeps L s e

/-- **The page directory in use stays valid** in every run of careful steps, from its first switch on;
and in every state of every run with a valid directory in CR3, only these steps keep it valid. -/
theorem active_directory_valid (L : Linkage) :
    (∀ es s, Run (recorded (CarefulStep L) switched) (.initial L, false) es (s, true) → Valid L s) ∧
    ∀ es s e s', Run (KStep L) (.initial L) es s → Valid L s → KStep L s e s' →
      (Valid L s' ↔ Keeps L s e) := by
  refine ⟨fun es s hrun => ?_, fun es s e s' hrun hv hstep => (kinv_of_run hrun).valid_iff hv hstep⟩
  have hinv := hrun.invariant_recorded (KInv L) (fun s b => b = true → Valid L s)
    (fun s e t hs hstep => kinv_step L s e t hs hstep.1) (fun s e t b hs hv hstep ht => ?_)
    (kinv_initial L) (fun h => absurd h (by simp))
  · exact hinv.2 rfl
  · obtain ⟨hstep, hkeeps⟩ := hstep
    cases e with
    | create r code => exact (hs.valid_iff (hv ht) hstep).mpr hkeeps
    | destroy pid result => exact (hs.valid_iff (hv ht) hstep).mpr hkeeps
    | tick cpu next cpu' =>
      obtain ⟨fuel, hstep⟩ := hstep
      exact ((tick_cases hstep).valid_iff hs).mpr hkeeps

/-- A step, unless it would not be a careful one. -/
def performCarefully (L : Linkage) (s : Kernel) (a : Action) : Except Trap (Event × Kernel) :=
  (perform L s a).bind fun x => if Keeps L s x.1 then .ok x else .error .outOfBounds

theorem performCarefully_step {L : Linkage} {s t : Kernel} {a : Action} {e : Event}
    (h : performCarefully L s a = .ok (e, t)) : CarefulStep L s e t := by
  rw [performCarefully] at h
  rcases hp : perform L s a with _ | x
  · rw [hp] at h
    exact absurd h (by simp [Except.bind])
  · rw [hp, Except.bind] at h
    split_ifs at h with hkeeps
    obtain rfl := Except.ok.inj h
    exact ⟨perform_step hp, hkeeps⟩

/-- A careful run: the first process runs, creates another one and is destroyed by it. -/
theorem active_directory_valid_destroy : ∃ es s,
    Run (recorded (CarefulStep someLinkage) switched) (.initial someLinkage, false) es (s, true) ∧
    s.list_of_process 0 = false ∧ Valid someLinkage s := by
  obtain ⟨es, s, b, hrun, hq⟩ := exists_run (performCarefully someLinkage) performCarefully_step
    switched (.initial someLinkage, false)
    [.create shellRequest, .tick (userCpu 0), .create shellRequest, .tick (userCpu 4), .destroy 0]
    (fun _ s b => b && decide (s.list_of_process 0 = false)) (by decide +kernel)
  rw [Bool.and_eq_true, decide_eq_true_eq] at hq
  obtain ⟨rfl, hdead⟩ := hq
  exact ⟨es, s, hrun, hdead, (active_directory_valid someLinkage).1 es s hrun⟩

/-- All 16 slots are in use when the first process destroys itself: directory 0 is cleared while CR3
has it loaded. -/
theorem active_directory_cleared : ∃ es s,
    Run (recorded (KStep someLinkage) switched) (.initial someLinkage, false) es (s, true) ∧
    s.paging.cr3 = physical_addr_page_dir (someLinkage.dir 0) ∧
    s.paging.page_directory_used 0 = false ∧ ¬ Valid someLinkage s := by
  obtain ⟨es, s, b, hrun, hq⟩ := exists_run (perform someLinkage) perform_step switched
    (.initial someLinkage, false)
    ([.create shellRequest, .tick (userCpu 0)] ++ List.replicate 15 (.create shellRequest) ++
      [.destroy 0] : List Action)
    (fun _ s b => b && decide (s.paging.cr3 = physical_addr_page_dir (someLinkage.dir 0) ∧
      s.paging.page_directory_used 0 = false ∧ ¬ Valid someLinkage s)) (by decide +kernel)
  rw [Bool.and_eq_true, decide_eq_true_eq] at hq
  obtain ⟨rfl, hcr3, hused, hnot⟩ := hq
  exact ⟨es, s, hrun, hcr3, hused, hnot⟩

end KeropOS
