import KeropOS.System.Loading

/-!
# Each process has its memory to itself

* `Serves`, **`syscall_served`**: what a system call can do to the kernel and to the memory;
* `Orderly`, **`orderly_step`**: the invariant; **`view_step`**: what a step leaves of the others' memory;
* `Memories`: for each slot, its memory when its process was created, with the stores that this process
  has made since; **`memory_is_private`**: that is its memory, after any careful run of the machine.
-/

namespace KeropOS

open PROCESS_STATE Translation Transition

variable {L : Linkage} {m m' m₁ : Machine} {r : UserRequest} {code : ℤ} {i j : Fin 16} {fuel : ℕ}
  {newDir : FAT32DirectoryTable}

instance (m : Machine) (i : Fin 16) : Decidable (m.Runs i) := by unfold Machine.Runs; infer_instance

/-! ## System calls -/

/-- What a system call can do to the kernel and to the memory, before it stores its results. -/
inductive Serves (L : Linkage) (m : Machine) : Machine → Prop
  | kept {m₁ : Machine} : m₁.kernel = m.kernel → m₁.ram = m.ram → Serves L m m₁
  | created {m₁ : Machine} (r : UserRequest) (code : ℤ) : create_process L m r = some (code, m₁) →
    Serves L m m₁
  | destroyed {m₁ : Machine} (pid : UInt32) (result : Bool) :
    process_destroy L m.kernel pid = .ok (result, m₁.kernel) → m₁.ram = m.ram → Serves L m m₁

/-- What a system call does, before it stores its results: the files change in a call of the driver, or in
`write_clusters`. -/
structure Served (L : Linkage) (m : Machine) (eax : UInt32) (e : Effect) : Prop where
  serves : Serves L m e.after
  files : e.call = none → eax ≠ 11 → e.after.fs = m.fs

theorem driver_call_served {p : UInt32 → Option UInt8} {eax ebx ecx : UInt32}
    {call : FAT32DriverRequest → Call}
    {reads room : UInt32 → ℕ} {e : Effect}
    (h : driver_call fuel newDir m p ebx ecx call reads room = some e) :
    Served L m eax e := by
  obtain ⟨r, -, h⟩ := Option.bind_eq_some_iff.mp h
  obtain ⟨buf, -, h⟩ := Option.bind_eq_some_iff.mp h
  split at h
  · exact absurd h (by simp)
  · obtain rfl := Option.some.inj h
    exact ⟨.kept rfl rfl, fun hcall => absurd hcall (by simp)⟩

theorem syscall_kill_cases {s s' : Kernel} {arg : Buffer} {message : String}
    (h : syscall_kill L s arg = .ok (message, s')) :
    s' = s ∨ ∃ pid result, process_destroy L s pid = .ok (result, s') := by
  unfold syscall_kill at h
  dsimp only at h
  split_ifs at h
  split at h
  · exact absurd h (by simp)
  · split_ifs at h
    · split at h
      · exact absurd h (by simp)
      · rename_i result s₁ hdestroy
        obtain ⟨-, rfl⟩ := Prod.mk.inj (Except.ok.inj h)
        exact .inr ⟨_, result, hdestroy⟩
    · obtain ⟨-, rfl⟩ := Prod.mk.inj (Except.ok.inj h)
      exact .inl rfl

theorem kill_call_served {p : UInt32 → Option UInt8} {is_clock : Bool} {eax ebx : UInt32} {e : Effect}
    (h : kill_call L m p is_clock ebx = some e) : Served L m eax e := by
  obtain ⟨arg, -, h⟩ := Option.bind_eq_some_iff.mp h
  split at h
  · exact absurd h (by simp)
  · rename_i message kernel hkill
    obtain rfl := Option.some.inj h
    rcases syscall_kill_cases hkill with rfl | ⟨pid, result, hdestroy⟩
    · exact ⟨.kept rfl rfl, fun _ _ => rfl⟩
    · exact ⟨.destroyed pid result hdestroy rfl, fun _ _ => rfl⟩

/-- **What a system call does.** -/
theorem syscall_served {p : UInt32 → Option UInt8} {rtc : UInt8 → UInt8} {is_clock : Bool}
    {eax ebx ecx edx : UInt32} {e : Effect}
    (h : syscall L fuel newDir m p rtc is_clock eax ebx ecx edx = some e) :
    Served L m eax e := by
  unfold syscall at h
  split at h
  · exact driver_call_served h
  · exact driver_call_served h
  · exact driver_call_served h
  · exact driver_call_served h
  · obtain rfl := Option.some.inj h
    exact ⟨.kept rfl rfl, fun _ _ => rfl⟩
  · obtain ⟨kata, -, rfl⟩ := Option.map_eq_some_iff.mp h
    exact ⟨.kept rfl rfl, fun _ _ => rfl⟩
  · obtain ⟨text, -, rfl⟩ := Option.map_eq_some_iff.mp h
    exact ⟨.kept rfl rfl, fun _ _ => rfl⟩
  · obtain rfl := Option.some.inj h
    exact ⟨.kept rfl rfl, fun _ _ => rfl⟩
  · obtain rfl := Option.some.inj h
    exact ⟨.kept rfl rfl, fun _ _ => rfl⟩
  · obtain rfl := Option.some.inj h
    exact ⟨.kept rfl rfl, fun _ _ => rfl⟩
  · obtain rfl := Option.some.inj h
    exact ⟨.kept rfl rfl, fun _ _ => rfl⟩
  · rename_i heax
    obtain ⟨buf, -, rfl⟩ := Option.map_eq_some_iff.mp h
    exact ⟨.kept rfl rfl, fun _ hne => absurd (UInt32.toNat_inj.mp heax) hne⟩
  · exact driver_call_served h
  · obtain ⟨r, -, h⟩ := Option.bind_eq_some_iff.mp h
    obtain ⟨⟨code, m'⟩, hcreate, rfl⟩ := Option.map_eq_some_iff.mp h
    exact ⟨.created r code hcreate, fun _ _ => create_process_fs hcreate⟩
  · split at h
    · exact absurd h (by simp)
    · rename_i result kernel hdestroy
      obtain rfl := Option.some.inj h
      exact ⟨.destroyed ebx result hdestroy rfl, fun _ _ => rfl⟩
  · obtain ⟨i, -, rfl⟩ := Option.map_eq_some_iff.mp h
    exact ⟨.kept rfl rfl, fun _ _ => rfl⟩
  · obtain ⟨⟨code, m'⟩, hcreate, rfl⟩ := Option.map_eq_some_iff.mp h
    exact ⟨.created clockreq code hcreate, fun _ _ => create_process_fs hcreate⟩
  · obtain rfl := Option.some.inj h
    exact ⟨.kept rfl rfl, fun _ _ => rfl⟩
  · obtain rfl := Option.some.inj h
    exact ⟨.kept rfl rfl, fun _ _ => rfl⟩
  · obtain ⟨hour, -, h⟩ := Option.bind_eq_some_iff.mp h
    obtain ⟨min, -, h⟩ := Option.bind_eq_some_iff.mp h
    obtain ⟨sec, -, rfl⟩ := Option.map_eq_some_iff.mp h
    exact ⟨.kept rfl rfl, fun _ _ => rfl⟩
  · obtain ⟨screen, -, rfl⟩ := Option.map_eq_some_iff.mp h
    exact ⟨.kept rfl rfl, fun _ _ => rfl⟩
  · exact kill_call_served h
  · obtain rfl := Option.some.inj h
    exact ⟨.kept rfl rfl, fun _ _ => rfl⟩
  · obtain rfl := Option.some.inj h
    exact ⟨.kept rfl rfl, fun _ _ => rfl⟩

/-! ## The invariant -/

/-- The process table is in order, no two slots have a directory in common, slot 0 does not run on a free one,
and the page frames are accounted for. -/
structure Orderly (L : Linkage) (m : Machine) : Prop where
  kinv : KInv L m.kernel
  apart : DirsApart L m.kernel
  idle : ZeroIdle m.kernel
  budget : Budget m.kernel.paging

theorem Orderly.kstep {e : Event} (h : Orderly L m) (hstep : KStep L m.kernel e m'.kernel) :
    Orderly L m' where
  kinv := kinv_step L _ _ _ h.kinv hstep
  apart := dirsApart_step h.kinv h.apart hstep
  idle := zeroIdle_step h.kinv h.idle hstep
  budget := (inBudget_step _ _ _ ⟨h.kinv, h.budget⟩ ((kstepAs_single L).symm ▸ hstep)).budget

theorem Orderly.congr (h : Orderly L m) (hk : m'.kernel = m.kernel) : Orderly L m' where
  kinv := hk ▸ h.kinv
  apart := hk ▸ h.apart
  idle := hk ▸ h.idle
  budget := hk ▸ h.budget

/-- The memory of the process that runs is the one that is loaded. -/
theorem Orderly.current_view (h : Orderly L m) (hi : m.Runs i) : m.current_view L = m.view L i := by
  rw [Machine.current_view, current_space_eq h.kinv hi]
  rfl

namespace Serves

theorem orderly (h : Serves L m m₁) (hs : Orderly L m) : Orderly L m₁ := by
  cases h with
  | kept hk _ => exact hs.congr hk
  | created r code hc =>
    have hstep : KStep L m.kernel (.create r.process code) m₁.kernel := (create_process_cases hc).2.1
    exact hs.kstep hstep
  | destroyed pid result hd _ =>
    have hstep : KStep L m.kernel (.destroy pid result) m₁.kernel := hd
    exact hs.kstep hstep

/-- The directory that is loaded stays so. -/
theorem stays_loaded (h : Serves L m m₁) {a : UInt32} (hloaded : Matches L a m.kernel.paging.cr3) :
    Matches L a m₁.kernel.paging.cr3 := by
  cases h with
  | kept hk _ => rwa [hk]
  | created r code hc =>
    rcases create_cases (create_process_cases hc).2.1 with ⟨-, heq⟩ | ⟨-, p, hc⟩ | ⟨-, p, d, hc⟩
    · rwa [heq]
    · rw [hc.eq]
      exact hloaded
    · rw [hc.cr3]
      exact hloaded.reload
  | destroyed pid result hd _ =>
    rcases destroy_cases hd with ⟨-, heq⟩ | ⟨-, p, q, -, hc⟩
    · rwa [heq]
    · rwa [hc.cr3]

/-- A live process keeps its directory pointer. -/
theorem dirOf_eq (h : Serves L m m₁) (hi : m.kernel.list_of_process i = true) :
    m₁.kernel.dirOf i = m.kernel.dirOf i := by
  cases h with
  | kept hk _ => rw [hk]
  | created r code hc =>
    rcases create_cases (create_process_cases hc).2.1 with ⟨-, heq⟩ | ⟨-, p, hc⟩ | ⟨-, p, d, hc⟩
    · rw [heq]
    · rw [hc.eq, claim_dirOf]
    · apply hc.dirOf_of_ne
      rintro rfl
      rw [hc.slot.1] at hi
      exact absurd hi (by decide)
  | destroyed pid result hd _ =>
    rcases destroy_cases hd with ⟨-, heq⟩ | ⟨-, p, q, -, hc⟩
    · rw [heq]
    · rw [hc.dirOf]

/-- **A system call leaves the memory of live processes**, before it stores its results. -/
theorem view_eq (h : Serves L m m₁) (hs : Orderly L m) (hi : m.kernel.list_of_process i = true)
    (hi' : m₁.kernel.list_of_process i = true) : m₁.view L i = m.view L i := by
  unfold Machine.view
  cases h with
  | kept hk hram => rw [hk, hram]
  | created r code hc =>
    obtain ⟨-, hkernel, hram⟩ := create_process_cases hc
    have hstep : KStep L m.kernel (.create r.process code) m₁.kernel := hkernel
    rw [← space_step hs.kinv hstep hi hi']
    rcases hram with ⟨-, hram⟩ | ⟨-, d, hd, hload, -⟩
    · rw [hram]
    · obtain ⟨ws, hpokes⟩ := load_pokes hload
      apply view_pokes_of_apart _ hpokes
      -- the new directory was not that of a live process
      apply (kinv_step L _ _ _ hs.kinv hstep).paging.space_apart
      intro hdir
      have hold : m.kernel.dirOf i = L.dir d := ((Serves.created r code hc).dirOf_eq hi).symm.trans hdir.symm
      rcases hs.kinv.used_or_zero hold with hused | ⟨rfl, rfl⟩
      · rw [hd] at hused
        exact absurd hused (by decide)
      · rw [hs.kinv.slot_zero hd] at hi
        exact absurd hi (by decide)
  | destroyed pid result hd hram =>
    have hstep : KStep L m.kernel (.destroy pid result) m₁.kernel := hd
    rw [← space_step hs.kinv hstep hi hi', hram]

end Serves

/-- Stores go to the memory that is loaded, and to no other. -/
theorem stored_view_of_ne {ws : List (UInt32 × UInt8)} {a : UInt32} (hs : Orderly L m)
    (hloaded : Matches L a m.kernel.paging.cr3) (h : Serves L m m₁) (hstored : m₁.Stored L ws m')
    (hne : ∀ k, a = L.dir k → m₁.kernel.dirOf i ≠ L.dir k) : m'.view L i = m₁.view L i := by
  obtain ⟨ram, hpokes, rfl⟩ := hstored
  rw [current_space_of_matches (h.stays_loaded hloaded)] at hpokes
  unfold Machine.view Kernel.space
  by_cases hdir : a = m₁.kernel.dirOf i
  · -- a pointer in common is none to a directory
    have hnone : space L m₁.kernel.paging (m₁.kernel.dirOf i) = fun _ => none :=
      space_of_ne fun k hk => hne k (hdir.trans hk) hk
    rw [hnone]
    rfl
  · exact view_pokes_of_apart ((h.orderly hs).kinv.paging.space_apart hdir) hpokes

/-- **What the process that runs stores is in its memory**, and in no other. -/
theorem stored_view {ws : List (UInt32 × UInt8)} (hs : Orderly L m) (hj : m.Runs j) (h : Serves L m m₁)
    (hstored : m₁.Stored L ws m') (hi : m.kernel.list_of_process i = true) :
    m'.view L i = if i = j then putAll (m₁.view L i) ws else m₁.view L i := by
  have hloaded := hs.kinv.loaded hj
  by_cases hij : i = j
  · obtain ⟨ram, hpokes, rfl⟩ := hstored
    rw [current_space_of_matches (h.stays_loaded hloaded), ← hij] at hpokes
    rw [if_pos hij]
    unfold Machine.view Kernel.space
    rw [h.dirOf_eq hi]
    exact view_pokes ((h.orderly hs).kinv.paging.space_oneToOne _) hpokes
  · rw [if_neg hij]
    apply stored_view_of_ne hs hloaded h hstored
    intro k hk
    rw [h.dirOf_eq hi]
    exact fun he => hij (hs.apart he hk)

/-- The directory that is loaded matches its address. -/
theorem matches_loaded (hloaded : m.Loaded L) :
    Matches L (paging_get_current_page_directory_addr m.kernel.paging) m.kernel.paging.cr3 := by
  obtain ⟨k, hk⟩ := hloaded
  refine .inl ⟨k, hk, ?_⟩
  have hsame : m.kernel.paging.cr3 + KERNEL_VIRTUAL_ADDRESS_BASE =
      physical_addr_page_dir (L.dir k) + KERNEL_VIRTUAL_ADDRESS_BASE := hk.trans (reload_dir L k).symm
  exact (UInt32.add_left_inj _).mp hsame

/-- **Stores of code that keeps to its memory**: they are in that of the process that runs, and in no other. -/
theorem unshared_view {ws : List (UInt32 × UInt8)} (hs : Orderly L m) (hloaded : m.Loaded L)
    (hown : m.Unshared) (h : Serves L m m₁) (hstored : m₁.Stored L ws m')
    (hi : m.kernel.list_of_process i = true) :
    m'.view L i = if m.Runs i then putAll (m₁.view L i) ws else m₁.view L i := by
  by_cases hruns : ∃ j, m.Runs j
  · obtain ⟨j, hj⟩ := hruns
    have hone : m.Runs i ↔ i = j := ⟨fun hr => hs.kinv.one hr hj, fun he => he ▸ hj⟩
    simp only [hone]
    exact stored_view hs hj h hstored hi
  · -- a process that was destroyed runs on
    rw [if_neg fun hr => hruns ⟨i, hr⟩]
    apply stored_view_of_ne hs (matches_loaded hloaded) h hstored
    intro k hk
    rw [h.dirOf_eq hi, ← hk]
    exact hown.resolve_left hruns i hi

/-- The process that runs can store where something is mapped. -/
theorem stored_returns {ws : List (UInt32 × UInt8)} (hs : Orderly L m) (hj : m.Runs j) (h : Serves L m m₁)
    (hlive : m.kernel.list_of_process j = true) (hmapped : ∀ w ∈ ws, (m₁.view L j w.1).isSome = true) :
    ∃ m', m₁.Stored L ws m' := by
  have hcell : ∀ w ∈ ws, (m₁.kernel.current_space L w.1).isSome = true := by
    intro w hw
    have hview := hmapped w hw
    rw [Machine.view, view, Option.isSome_map, Kernel.space, h.dirOf_eq hlive] at hview
    rwa [current_space_of_matches (h.stays_loaded (hs.kinv.loaded hj))]
  obtain ⟨ram, hpokes⟩ := pokes_isSome hcell
  exact ⟨{ m₁ with ram := ram }, ram, hpokes, rfl⟩

/-- **A step keeps the invariant.** -/
theorem orderly_step (L : Linkage) (m : Machine) (h : Happening) (m' : Machine) (hs : Orderly L m)
    (hstep : m.Follows L h m') : Orderly L m' := by
  obtain ⟨input, stores, call⟩ := h
  cases input with
  | store virtual_addr value =>
    obtain ⟨-, -, ram, -, rfl⟩ := hstep
    exact hs.congr rfl
  | syscall eax ebx ecx edx =>
    obtain ⟨fuel, newDir, rtc, is_clock, after, hcall, ram, -, rfl⟩ := hstep
    exact ((syscall_served hcall).serves.orderly hs).congr rfl
  | timer cpu =>
    obtain ⟨-, -, fuel, next, kernel, cpu', htick, rfl⟩ := hstep
    have hkernel : KStep L m.kernel (.tick cpu next cpu') kernel := ⟨fuel, htick⟩
    exact hs.kstep hkernel
  | keyboard scancode =>
    obtain ⟨-, -, rfl⟩ := hstep
    exact hs.congr rfl

/-! ## The record -/

/-- A memory for each slot. -/
abbrev Memories := Fin 16 → UInt32 → Option UInt8

/-- A new process has the memory it is created with, and the process that runs makes its stores. -/
def Memories.next (L : Linkage) (m : Machine) (h : Happening) (m' : Machine) (memories : Memories) :
    Memories :=
  fun i =>
    if m.kernel.list_of_process i = false ∧ m'.kernel.list_of_process i = true then m'.view L i
    else if m.Runs i then putAll (memories i) h.stores else memories i

/-- The memory of each live process is the recorded one. -/
def Recorded (L : Linkage) (m : Machine) (memories : Memories) : Prop :=
  ∀ i, m.kernel.list_of_process i = true → m.view L i = memories i

/-- **The stores of a step are those of the process that runs**, for every process that was there before. -/
theorem view_step {h : Happening} (hs : Orderly L m) (hstep : m.Careful L h m')
    (hi : m.kernel.list_of_process i = true) (hi' : m'.kernel.list_of_process i = true) :
    m'.view L i = if m.Runs i then putAll (m.view L i) h.stores else m.view L i := by
  have hloaded := hstep.loaded
  have howns := hstep.owns
  replace hstep := hstep.follows
  obtain ⟨input, stores, call⟩ := h
  cases input with
  | store virtual_addr value =>
    obtain ⟨-, -, hstored⟩ := hstep
    exact unshared_view hs hloaded howns (.kept rfl rfl) hstored hi
  | syscall eax ebx ecx edx =>
    obtain ⟨fuel, newDir, rtc, is_clock, after, hcall, hstored⟩ := hstep
    have hserves := (syscall_served hcall).serves
    have hview := unshared_view hs hloaded howns hserves hstored hi
    obtain ⟨ram, -, rfl⟩ := hstored
    rwa [hserves.view_eq hs hi hi'] at hview
  | timer cpu =>
    obtain ⟨rfl, -, fuel, next, kernel, cpu', htick, rfl⟩ := hstep
    have hkernel : KStep L m.kernel (.tick cpu next cpu') kernel := ⟨fuel, htick⟩
    have hview : Machine.view L { m with kernel := kernel } i = m.view L i := by
      unfold Machine.view
      rw [space_step hs.kinv hkernel hi hi']
    rw [hview]
    exact (ite_self _).symm
  | keyboard scancode =>
    obtain ⟨rfl, -, rfl⟩ := hstep
    exact (ite_self _).symm

theorem recorded_step (L : Linkage) (m : Machine) (h : Happening) (m' : Machine) (memories : Memories)
    (hs : Orderly L m) (hm : Recorded L m memories) (hstep : m.Careful L h m') :
    Recorded L m' (Memories.next L m h m' memories) := by
  intro i hi'
  unfold Memories.next
  cases hi : m.kernel.list_of_process i with
  | false => rw [if_pos ⟨rfl, hi'⟩]
  | true =>
    rw [if_neg (by simp), view_step hs hstep hi hi', hm i hi]

/-! ## The start -/

theorem orderly_initial (L : Linkage) (d : Disk) (ram : Ram) (screen : Screen.Terminal) :
    Orderly L (.initial L d ram screen) :=
  ⟨kinv_initial L, dirsApart_initial L, fun _ h => PROCESS_STATE.noConfusion h, budget_initial L⟩

theorem orderly_start {d : Disk} {ram : Ram} {screen : Screen.Terminal}
    (h : kernel_setup L fuel d ram screen = some m) : Orderly L m := by
  obtain ⟨code, m₁, hcreate, -, htick⟩ := kernel_setup_cases h
  obtain ⟨next, cpu', hkernel⟩ := htick (userCpu 0)
  exact ((Serves.created _ _ hcreate).orderly (orderly_initial L d ram screen)).kstep hkernel

/-- **Each process has its memory to itself.** After any careful run of the machine, the memory of a live
process is what it was created with, and what it has stored itself, or had stored by its own system calls. -/
theorem memory_is_private (L : Linkage) (fuel : ℕ) (d : Disk) (ram : Ram) (screen : Screen.Terminal)
    (m₀ m : Machine) (hs : List Happening) (memories : Memories)
    (hstart : kernel_setup L fuel d ram screen = some m₀)
    (h : Run (recorded (Machine.Careful L) (Memories.next L)) (m₀, m₀.view L) hs (m, memories)) :
    ∀ i, m.kernel.list_of_process i = true → m.view L i = memories i :=
  (h.invariant_recorded (Orderly L) (Recorded L) (fun m e m' hs h => orderly_step L m e m' hs h.follows)
    (recorded_step L) (orderly_start hstart) fun _ _ => rfl).2

/-- The process that runs has a page directory loaded, when something is mapped. -/
theorem loaded_of_mapped {a : UInt32} {b : UInt8} (hs : Orderly L m) (hi : m.Runs i)
    (hbyte : m.view L i a = some b) : m.Loaded L := by
  obtain ⟨c, hc, -⟩ := Option.map_eq_some_iff.mp hbyte
  obtain ⟨k, hk, -⟩ := dir_of_space hc
  have hloaded := hs.kinv.loaded hi
  rw [hk] at hloaded
  rcases hloaded.current with ⟨k', -, hcur⟩ | ⟨hjunk, -⟩
  · exact ⟨k', hcur⟩
  · exact absurd rfl (hjunk.ne_dir L k)

/-- A store in its own memory by the process that runs. -/
theorem careful_store {a : UInt32} {b value : UInt8} (hs : Orderly L m) (hi : m.Runs i)
    (hlive : m.kernel.list_of_process i = true) (hbyte : m.view L i a = some b) :
    ∃ m', m.Careful L { input := .store a value, stores := [(a, value)] } m' ∧ m'.kernel = m.kernel := by
  have hmapped : ∀ w ∈ [(a, value)], (m.view L i w.1).isSome = true := by
    intro w hw
    rw [List.mem_singleton.mp hw, hbyte]
    rfl
  obtain ⟨m', hstored⟩ := stored_returns hs hi (.kept rfl rfl) hlive hmapped
  have hloaded := loaded_of_mapped hs hi hbyte
  refine ⟨m', ⟨.inl ⟨rfl, rfl, hstored⟩, ?_, .inl ⟨i, hi⟩⟩, ?_⟩
  · rintro (hnone | hfalse)
    · exact hnone hloaded
    · exact hfalse
  · obtain ⟨ram, -, rfl⟩ := hstored
    rfl

/-- The shell stores a byte. -/
theorem memory_is_private_store : ∃ d m₀ m,
    kernel_setup someLinkage 16 d (fun _ => 0) (Screen.start fun _ => 0) = some m₀ ∧
      m₀.Careful someLinkage { input := .store 0 7, stores := [(0, 7)] } m ∧
      m.view someLinkage 0 0 = some 7 := by
  obtain ⟨s, m₀, -, hstart, hruns, hshell, -⟩ := some_start
  have hbyte : m₀.view someLinkage 0 0 = some 0 := hshell.memory 0 (by decide)
  obtain ⟨m, hstep, hkernel⟩ := careful_store (orderly_start hstart) hruns hshell.live hbyte
  have hrun : Run (recorded (Machine.Careful someLinkage) (Memories.next someLinkage))
      (m₀, m₀.view someLinkage) [{ input := .store 0 7, stores := [(0, 7)] }] (m,
        Memories.next someLinkage m₀ _ m (m₀.view someLinkage)) :=
    .single ⟨hstep, rfl⟩
  have hlive : m.kernel.list_of_process 0 = true := by
    rw [hkernel]
    exact hshell.live
  refine ⟨s.disk, m₀, m, hstart, hstep, ?_⟩
  rw [memory_is_private someLinkage 16 s.disk (fun _ => 0) (Screen.start fun _ => 0) m₀ m _ _ hstart hrun 0
    hlive,
    Memories.next, if_neg (by simp [hshell.live]), if_pos hruns]
  apply putAll_of_mem (List.mem_singleton_self _)
  intro b hb
  exact (Prod.mk.inj (List.mem_singleton.mp hb)).2

end KeropOS
