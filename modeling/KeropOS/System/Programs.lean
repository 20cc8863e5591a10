import KeropOS.System.Separation

/-!
# Programs

What the files of the driver become when they are run.

* `PlainStep`, **`tracks_machine`**: the files of the machine are those of the file map, over power
  cycles, the start and any run;
* `Idles`, **`idles_run`**: a process that has not run yet keeps its memory and its context;
* `StartsAs`; **`program_starts_as_its_file`**, **`shell_starts_as_inserted`**.
-/

namespace KeropOS

open PROCESS_STATE Translation Transition

variable {L : Linkage} {m m' m₀ m₁ : Machine} {r : UserRequest} {i p : Fin 16} {fuel : ℕ}

/-! ## The files of the machine -/

/-- A step that does not stray and keeps to the rules of the files: the calls of the driver are such as the file
map follows, and no cluster is written past the driver. -/
def PlainStep (L : Linkage) (m : Machine) (h : Happening) (m' : Machine) : Prop :=
  m.Follows L h m' ∧ (∀ ebx ecx edx, h.input ≠ .syscall 11 ebx ecx edx) ∧
    ∀ event, h.call = some event → StepNamed m.fs event m'.fs

theorem files_kept {h : Happening} (hstep : PlainStep L m h m') (hcall : h.call = none) : m'.fs = m.fs := by
  obtain ⟨input, stores, call⟩ := h
  obtain ⟨hstep, hcareful, -⟩ := hstep
  cases input with
  | store virtual_addr value =>
    obtain ⟨-, -, ram, -, rfl⟩ := hstep
    rfl
  | syscall eax ebx ecx edx =>
    obtain ⟨fuel, newDir, rtc, is_clock, after, hsyscall, ram, -, rfl⟩ := hstep
    apply (syscall_served hsyscall).files hcall
    rintro rfl
    exact hcareful ebx ecx edx rfl
  | timer cpu =>
    obtain ⟨-, -, fuel, next, kernel, cpu', -, rfl⟩ := hstep
    rfl
  | keyboard scancode =>
    obtain ⟨-, -, rfl⟩ := hstep
    rfl

/-- The calls of a run are a run of the driver. -/
theorem files_run {hs : List Happening} (h : Run (PlainStep L) m₀ hs m) :
    Run CycleStep m₀.fs ((hs.filterMap Happening.call).map CycleEvent.call) m.fs := by
  induction h with
  | nil => exact .nil
  | @snoc m m' hs h _ hstep ih =>
    rw [List.filterMap_append, List.map_append]
    cases hcall : h.call with
    | none =>
      rw [files_kept hstep hcall, List.filterMap_cons_none hcall]
      simpa using ih
    | some event =>
      rw [List.filterMap_cons_some hcall]
      exact ih.snoc (hstep.2.2 event hcall)

/-- Power cycles, the start, and a run of the machine are one run of the files. -/
theorem cycles_machine {d : Disk} {es : List CycleEvent} {s : Fs} {ram : Ram} {screen : Screen.Terminal}
    {hs : List Happening} (hes : Run CycleStep (mount d) es s)
    (hstart : kernel_setup L fuel s.disk ram screen = some m₀) (hrun : Run (PlainStep L) m₀ hs m) :
    Run CycleStep (mount d) ((es ++ [.cycle]) ++ (hs.filterMap Happening.call).map CycleEvent.call) m.fs := by
  have hcycle : CycleStep s .cycle m₀.fs := by
    rw [CycleStep]
    exact kernel_setup_fs hstart
  exact (hes.snoc hcycle).append (files_run hrun)

/-- **The files of the machine are those of the file map**, from a new drive on, through power cycles, the
start, and any run. -/
theorem tracks_machine {d : Disk} {es : List CycleEvent} {s : Fs} {ram : Ram} {screen : Screen.Terminal}
    {hs : List Happening} (hd : is_empty_storage d = true) (hes : Run CycleStep (mount d) es s)
    (hstart : kernel_setup L fuel s.disk ram screen = some m₀) (hrun : Run (PlainStep L) m₀ hs m) :
    ∃ M, Run MapStep (fun _ => none) (es.filterMap CycleEvent.call? ++ hs.filterMap Happening.call) M ∧
      Inv m.fs ∧ Tracks m.fs M := by
  obtain ⟨M, hmap, hinv, hM⟩ := tracks_of_cycles hd (cycles_machine hes hstart hrun)
  refine ⟨M, ?_, hinv.1, hM⟩
  rw [List.filterMap_append, List.filterMap_append, filterMap_call,
    show List.filterMap CycleEvent.call? [CycleEvent.cycle] = [] from rfl, List.append_nil] at hmap
  exact hmap

/-! ## A process that waits -/

/-- Process `p` does not run, and stays; the others keep to their memory. -/
def Idles (L : Linkage) (p : Fin 16) (m : Machine) (h : Happening) (m' : Machine) : Prop :=
  m.Careful L h m' ∧ ¬ m.Runs p ∧ m'.kernel.list_of_process p = true

theorem Serves.context_eq (h : Serves L m m₁) (hi : m.kernel.list_of_process i = true) :
    (m₁.kernel.process_list i).context = (m.kernel.process_list i).context := by
  cases h with
  | kept hk _ => rw [hk]
  | created r code hc =>
    rcases create_cases (create_process_cases hc).2.1 with ⟨-, heq⟩ | ⟨-, p, hc⟩ | ⟨-, p, d, hc⟩
    · rw [heq]
    · rw [hc.eq, claim_context]
    · have hip : i ≠ p := by
        rintro rfl
        rw [hc.slot.1] at hi
        exact absurd hi (by decide)
      rw [hc.pcb_of_ne hip]
  | destroyed pid result hd _ =>
    rcases destroy_cases hd with ⟨-, heq⟩ | ⟨-, p, q, -, hc⟩
    · rw [heq]
    · rw [hc.pcb]

theorem context_step {h : Happening} (hs : Orderly L m) (hstep : Idles L p m h m')
    (hp : m.kernel.list_of_process p = true) :
    (m'.kernel.process_list p).context = (m.kernel.process_list p).context := by
  obtain ⟨hstep, hwaits, -⟩ := hstep
  replace hstep := hstep.follows
  obtain ⟨input, stores, call⟩ := h
  cases input with
  | store virtual_addr value =>
    obtain ⟨-, -, ram, -, rfl⟩ := hstep
    rfl
  | syscall eax ebx ecx edx =>
    obtain ⟨fuel, newDir, rtc, is_clock, after, hsyscall, ram, -, rfl⟩ := hstep
    exact (syscall_served hsyscall).serves.context_eq hp
  | timer cpu =>
    obtain ⟨-, -, fuel, next, kernel, cpu', htick, rfl⟩ := hstep
    have ht := tick_cases htick
    exact (ht.context p).trans (savedContext_of_not_running hs.kinv hwaits)
  | keyboard scancode =>
    obtain ⟨-, -, rfl⟩ := hstep
    rfl

/-- **A process that waits keeps its memory and its context.** -/
theorem idles_run {hs : List Happening} (h : Run (Idles L p) m₁ hs m') (horderly : Orderly L m₁)
    (hp : m₁.kernel.list_of_process p = true) : m'.kernel.list_of_process p = true ∧
      m'.view L p = m₁.view L p ∧
      (m'.kernel.process_list p).context = (m₁.kernel.process_list p).context := by
  suffices hall : Orderly L m' ∧ m'.kernel.list_of_process p = true ∧ m'.view L p = m₁.view L p ∧
      (m'.kernel.process_list p).context = (m₁.kernel.process_list p).context from hall.2
  induction h with
  | nil => exact ⟨horderly, hp, rfl, rfl⟩
  | snoc _ hstep ih =>
    obtain ⟨ho, hlive, hview, hcontext⟩ := ih
    obtain ⟨hm, hwaits, hlive'⟩ := hstep
    have hsame := view_step ho hm hlive hlive'
    rw [if_neg hwaits] at hsame
    exact ⟨orderly_step L _ _ _ ho hm.follows, hlive', hsame.trans hview,
      (context_step ho ⟨hm, hwaits, hlive'⟩ hlive).trans hcontext⟩

/-! ## The start of a program -/

theorem syscall_create (L : Linkage) (fuel : ℕ) (newDir : FAT32DirectoryTable) (m : Machine)
    (p : UInt32 → Option UInt8) (rtc : UInt8 → UInt8)
    (is_clock : Bool) (ebx ecx edx : UInt32) : syscall L fuel newDir m p rtc is_clock 13 ebx ecx edx =
      (fetchRequest p ebx).bind fun r => (create_process L m r).map fun (code, m') =>
        { after := m', stores := [(ecx, UInt8.ofInt code)] } := rfl

/-- System call 13 with the request `r` of the process that runs: a new process starts as its file, and the
memory of the caller gets the code. -/
theorem syscall_create_starts {ebx ecx edx : UInt32} (hs : Orderly L m) (hi : m.Runs i)
    (hcall : m.Follows L ⟨.syscall 13 ebx ecx edx, [(ecx, 0)], none⟩ m₁)
    (hr : fetchRequest (m.view L i) ebx = some r) :
    ∃ p d, Created L m.kernel m₁.kernel r.process p d ∧
      ∀ {bytes}, Inv m.fs → Present m.fs (r.driver 0).key (.file bytes) →
        StartsAs L m₁ p r.buf (bytes.take (loadedBytes r bytes)) := by
  obtain ⟨fuel, newDir, rtc, is_clock, after, hsyscall, hstored⟩ := hcall
  rw [syscall_create, hs.current_view hi, hr, Option.bind_some] at hsyscall
  obtain ⟨⟨code, m₂⟩, hcreated, heq⟩ := Option.map_eq_some_iff.mp hsyscall
  injection heq with hafter hstores
  subst hafter
  have hcode : UInt8.ofInt code = 0 := by simpa using hstores
  obtain rfl : code = 0 := by
    rcases create_codes (create_process_cases hcreated).2.1 with rfl | rfl | rfl | rfl
    · rfl
    · exact absurd hcode (by decide)
    · exact absurd hcode (by decide)
    · exact absurd hcode (by decide)
  obtain ⟨p, d, hc, hstarts⟩ := create_starts hs.kinv hcreated
  -- the code is stored in another address space
  have hsame : m₁.view L p = m₂.view L p := by
    apply stored_view_of_ne hs (hs.kinv.loaded hi) (.created r 0 hcreated) hstored
    intro k hk hdir
    obtain rfl := L.dir_injective (hc.dirOf_self.symm.trans hdir)
    rcases hs.kinv.used_or_zero hk with hused | ⟨rfl, rfl⟩
    · rw [hc.dir.1] at hused
      exact absurd hused (by decide)
    · exact hs.idle hc.dir.1 hi
  obtain ⟨ram, -, rfl⟩ := hstored
  exact ⟨p, d, hc, fun hinv hfile => (hstarts hinv hfile).congr hc.list_self hsame rfl⟩

theorem le_loadedBytes {bytes : List UInt8} (hsize : r.buffer_size.toNat ≤ 0xC0000000) :
    min r.buffer_size.toNat bytes.length ≤ loadedBytes r bytes := by
  unfold loadedBytes readRoom clustersFor
  rw [Nat.mod_eq_of_lt (by omega)]
  omega

/-- **A program starts as its file.** When system call 13 returns 0, from a new drive on, after power cycles,
the start, and any run that keeps to the rules of the files, the file map that the calls have made is what the
new process is loaded from: until it runs for the first time, and while the others keep to their memory, it is
about to start at the first byte of the file, and the first `buffer_size` bytes of it are in its memory. -/
theorem program_starts_as_its_file (L : Linkage) (d₀ : Disk) (es : List CycleEvent) (s : Fs) (fuel : ℕ)
    (ram : Ram) (screen : Screen.Terminal) (m₀ m m₁ : Machine) (hs : List Happening) (i : Fin 16)
    (ebx ecx edx : UInt32) (r : UserRequest) (hd : is_empty_storage d₀ = true)
    (hes : Run CycleStep (mount d₀) es s)
    (hstart : kernel_setup L fuel s.disk ram screen = some m₀) (hrun : Run (PlainStep L) m₀ hs m)
    (hi : m.Runs i) (hcall : m.Follows L ⟨.syscall 13 ebx ecx edx, [(ecx, 0)], none⟩ m₁)
    (hr : fetchRequest (m.view L i) ebx = some r) (hsize : r.buffer_size.toNat ≤ 0xC0000000) :
    ∃ M p, Run MapStep (fun _ => none) (es.filterMap CycleEvent.call? ++ hs.filterMap Happening.call) M ∧
      m.kernel.list_of_process p = false ∧
      ∀ bytes, M (r.driver 0).key = some (.file bytes) → ∀ hs' m', Run (Idles L p) m₁ hs' m' →
        StartsAs L m' p r.buf (bytes.take r.buffer_size.toNat) := by
  obtain ⟨M, hmap, hinv, hM⟩ := tracks_machine hd hes hstart hrun
  have ho : Orderly L m :=
    hrun.invariant (Orderly L) (fun _ _ _ hs h => orderly_step L _ _ _ hs h.1) (orderly_start hstart)
  obtain ⟨p, d, hc, hstarts⟩ := syscall_create_starts ho hi hcall hr
  refine ⟨M, p, hmap, hc.slot.1, fun bytes hbytes hs' m' hwait => ?_⟩
  obtain ⟨hlive, hview, hcontext⟩ := idles_run hwait (orderly_step L _ _ _ ho hcall) hc.list_self
  exact ((hstarts hinv ((hM _ _).mp hbytes)).congr hlive hview hcontext).take (le_loadedBytes hsize)

/-- The bytes of a request are fetched as the request. -/
theorem fetchRequest_of_bytes {v : UInt32 → Option UInt8} {ebx : UInt32}
    (h : ∀ i : Fin 23, v (ebx + UInt32.ofNat i) = some (requestLayout.encode r i)) :
    fetchRequest v ebx = some r := by
  have hall : ∀ a < 23, (v (ebx + UInt32.ofNat a)).isSome = true := fun a ha => by
    rw [h ⟨a, ha⟩]
    rfl
  rw [fetchRequest, fetch, if_pos hall, Option.map_some]
  have hbytes : (fun i : Fin 23 => (v (ebx + UInt32.ofNat i)).getD 0) = requestLayout.encode r := by
    funext i
    rw [h i]
    rfl
  rw [hbytes, requestLayout.decode_encode]

/-- The shell asks for itself, with the request that its file begins with. -/
theorem program_starts_as_its_file_shell : ∃ d m₀ m₁ p,
    kernel_setup someLinkage 16 d (fun _ => 0) (Screen.start fun _ => 0) = some m₀ ∧
      m₀.Follows someLinkage ⟨.syscall 13 0 0 0, [(0, 0)], none⟩ m₁ ∧ m₀.kernel.list_of_process p = false ∧
      StartsAs someLinkage m₁ p 0 (firstBytes 23 firstShell) := by
  obtain ⟨s, m₀, hes, hstart, hruns, hshell, -⟩ := some_start
  have ho := orderly_start hstart
  have hbytes : ∀ i : Fin 23, m₀.view someLinkage 0 (0 + UInt32.ofNat i) =
    some (requestLayout.encode shellreq i) := by
    intro i
    refine (hshell.memory i (by simp [firstBytes])).trans ?_
    simp [firstBytes, firstShell]
  have hfetch := fetchRequest_of_bytes hbytes
  obtain ⟨M, hmap, hinv, hM⟩ := tracks_machine is_empty_storage_zero hes hstart .nil
  have hfile : ∀ {M}, Run MapStep (fun _ => none)
      ([] ++ [(.write (Inserter.request (ascii "shell") 2 23 firstShell), ⟨0, firstShell⟩)]) M →
      M (shellreq.driver 0).key = some (.file (firstBytes 23 firstShell)) := by
    intro M hmap
    rw [← shell_key 23 firstShell]
    exact written_last (by decide) hmap
  obtain ⟨hcount, hslot, hdir, hfree, hfree'⟩ := room_after_start hstart
  have hmem : paging_allocate_check m₀.kernel.paging
    (page_frame_count_needed shellreq.process.buffer_size) = true := by
    unfold paging_allocate_check
    rw [hfree']
    decide
  obtain ⟨kernel, hkernel⟩ := create_admits (L := someLinkage) (by rw [hcount]; decide) (by decide) hmem
    (by decide)
    ⟨1, hslot⟩ ⟨1, hdir⟩
  obtain ⟨m₂, hcreate⟩ := create_process_returns m₀ shellreq ho.kinv hinv ((hM _ _).mp (hfile hmap))
    (by omega)
    (shell_fits _) hkernel
  -- the code goes to the memory of the caller
  have hserves : Serves someLinkage m₀ m₂ := .created shellreq 0 hcreate
  have hlive : m₂.kernel.list_of_process 0 = true := by
    obtain ⟨p, d, hc, -⟩ := create_starts ho.kinv hcreate
    rw [hc.list_of_ne (ne_of_live hshell.live hc.slot.1)]
    exact hshell.live
  have hmapped : ∀ w ∈ [((0 : UInt32), (0 : UInt8))], (m₂.view someLinkage 0 w.1).isSome = true := by
    intro w hw
    rw [List.mem_singleton.mp hw, hserves.view_eq ho hshell.live hlive]
    exact (congrArg Option.isSome (hbytes 0)).trans rfl
  obtain ⟨m₁, hstored⟩ := stored_returns ho hruns hserves hshell.live hmapped
  have hcall : m₀.Follows someLinkage ⟨.syscall 13 0 0 0, [(0, 0)], none⟩ m₁ := by
    refine ⟨0, 0, fun _ => 0, false, m₂, ?_, hstored⟩
    rw [syscall_create, ho.current_view hruns, hfetch, Option.bind_some, hcreate]
    rfl
  obtain ⟨M', p, hmap', hp, hstarts⟩ := program_starts_as_its_file someLinkage 0 _ s 16 (fun _ => 0)
    (Screen.start fun _ => 0) m₀ m₀ m₁ [] 0 0 0 0 shellreq is_empty_storage_zero hes hstart .nil hruns hcall
    hfetch (by decide)
  refine ⟨s.disk, m₀, m₁, p, hstart, hcall, hp, ?_⟩
  have hshell' := hstarts _ (hfile hmap') [] m₁ .nil
  rwa [List.take_of_length_le (by decide)] at hshell'

/-! ## The shell -/

/-- **The shell starts as what was inserted.** The bytes that the inserter writes under the name of the shell,
into the image of any run, are what the shell starts as, on a machine that starts with the new image. -/
theorem shell_starts_as_inserted (L : Linkage) (d d' : Disk) (es : List CycleEvent) (s : Fs)
    (filesize : UInt32) (file_buffer : Buffer) (ram : Ram) (screen : Screen.Terminal)
    (hd : is_empty_storage d = true) (h : Run CycleStep (mount d) es s)
    (hlegal : Legal (mount s.disk) (.write (Inserter.request (ascii "shell") 2 filesize file_buffer)))
    (hsize : filesize ≠ 0)
    (hmain : Inserter.main s.disk (Inserter.request (ascii "shell") 2 filesize file_buffer) = .ok (0, d')) :
    ∃ m₀, kernel_setup L 16 d' ram screen = some m₀ ∧ m₀.Runs 0 ∧
      StartsAs L m₀ 0 0 (firstBytes filesize.toNat file_buffer) := by
  obtain ⟨M, hinv, hM, hfile⟩ := inserted_tracks hd h hlegal shell_named hsize hmain
  rw [shell_key] at hfile
  have hpresent := (hM _ _).mp hfile
  obtain ⟨m₀, hstart⟩ := kernel_setup_returns (L := L) hinv hpresent ram screen
  obtain ⟨hruns, hshell⟩ := shell_starts hinv hpresent hstart
  refine ⟨m₀, hstart, hruns, ?_⟩
  have hlength : (firstBytes filesize.toNat file_buffer).length = filesize.toNat := by simp [firstBytes]
  have hmax : filesize.toNat ≤ 255 * 2048 := (hlegal.2.2.resolve_left hsize).2
  have hroom : readRoom shellreq.buffer_size = 1048576 := by decide
  have hall : (firstBytes filesize.toNat file_buffer).length ≤
      loadedBytes shellreq (firstBytes filesize.toNat file_buffer) := by
    rw [loadedBytes, hroom, hlength]
    unfold clustersFor
    omega
  rw [← List.take_of_length_le hall]
  exact hshell

/-- Five bytes inserted for the shell. -/
theorem shell_starts_as_inserted_five : ∃ d' m₀,
    Inserter.main (mount 0).disk (Inserter.request (ascii "shell") 2 5 firstFile.buf) = .ok (0, d') ∧
      kernel_setup someLinkage 16 d' (fun _ => 0) (Screen.start fun _ => 0) = some m₀ ∧ m₀.Runs 0 ∧
      StartsAs someLinkage m₀ 0 0 [0, 1, 2, 3, 4] := by
  obtain ⟨hlegal, d', hmain, -⟩ := first_insert 5 firstFile.buf shell_named ⟨by decide, by decide⟩ (by decide)
  obtain ⟨m₀, hstart, hshell⟩ := shell_starts_as_inserted someLinkage 0 d' [] (mount 0) 5 firstFile.buf
    (fun _ => 0)
    (Screen.start fun _ => 0) is_empty_storage_zero .nil hlegal (by decide) hmain
  exact ⟨d', m₀, hmain, hstart, hshell⟩

end KeropOS
