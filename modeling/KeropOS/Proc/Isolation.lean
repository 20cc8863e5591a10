import KeropOS.Proc.Invariant

/-!
# Memory isolation

The record of a run holds, for each slot, the page frames that its last creation took, when that
creation returned 0. `Isolated` is what such slots have of their own.

* `Frames.next`: the record; `AddressSpace`, `Isolated`: the property;
* **`created_slots_isolated`**: it holds in every state of every run.
-/

namespace KeropOS

open Transition

/-! ## The property -/

/-- For each slot, the frames taken by its last creation, if that returned 0. -/
abbrev Frames := Fin 16 → Option (Fin 32 → Bool)

/-- A creation makes a free slot live; the frames it took were free before. -/
def Frames.next (s : Kernel) (e : Event) (s' : Kernel) (made : Frames) : Frames :=
  match e with
  | .create _ code => fun i =>
    if s.list_of_process i = false ∧ s'.list_of_process i = true then
      if code = 0 then some fun f => !s.paging.page_frame_map f && s'.paging.page_frame_map f else none
    else made i
  | _ => made

theorem Frames.next_create (s s' : Kernel) (r : ProcessRequest) (code : ℤ) (made : Frames) (i : Fin 16) :
    Frames.next s (.create r code) s' made i =
      if s.list_of_process i = false ∧ s'.list_of_process i = true then
        if code = 0 then some fun f => !s.paging.page_frame_map f && s'.paging.page_frame_map f else none
      else made i := rfl

/-- The directory maps frame `f` for user code. -/
def UserMaps (table : PageDirectory) (f : ℕ) : Prop := ∃ j, (table j).IsUser ∧ (table j).lower_address.val = f

/-- Slot `i` is live, and its last creation returned 0 and took the frames `taken`. -/
def Owner (s : Kernel) (made : Frames) (i : Fin 16) (taken : Fin 32 → Bool) : Prop :=
  s.list_of_process i = true ∧ made i = some taken

/-- The directory of slot `i` is directory `k`: it has the kernel's entry, and its other entries map
frames of the creation of this very process. -/
structure AddressSpace (L : Linkage) (s : Kernel) (i : Fin 16) (k : Fin 32) (taken : Fin 32 → Bool) : Prop where
  dir : s.dirOf i = L.dir k
  used : s.paging.page_directory_used k = true
  kernel : (s.paging.page_directory_list k 0x300).IsPresent ∧
    ¬ (s.paging.page_directory_list k 0x300).IsUser ∧
    (s.paging.page_directory_list k 0x300).lower_address = 0
  frames : ∀ f, UserMaps (s.paging.page_directory_list k) f →
    ∃ g : Fin 32, g.val = f ∧ g ≠ 0 ∧ s.paging.page_frame_map g = true
  own : ∀ j ≠ 0x300, (s.paging.page_directory_list k j).IsPresent →
    ∃ g : Fin 32, (s.paging.page_directory_list k j).lower_address.val = g ∧ taken g = true

/-- Every slot whose creation succeeded has an address space of its own. -/
structure Isolated (L : Linkage) (s : Kernel) (made : Frames) : Prop where
  space : ∀ {i taken}, Owner s made i taken → ∃ k, AddressSpace L s i k taken
  apart : ∀ {i j taken taken'}, Owner s made i taken → Owner s made j taken' → i ≠ j →
    s.dirOf i ≠ s.dirOf j
  disjoint : ∀ {i j k l taken taken'}, Owner s made i taken → Owner s made j taken' → i ≠ j →
    s.dirOf i = L.dir k → s.dirOf j = L.dir l → ∀ f, UserMaps (s.paging.page_directory_list k) f →
    ¬ UserMaps (s.paging.page_directory_list l) f

/-! ## The invariant -/

/-- The directories of the slots created, and what their entries map. -/
structure Spaces (L : Linkage) (s : Kernel) (made : Frames) : Prop where
  dir : ∀ {i taken}, Owner s made i taken → ∃ k, s.dirOf i = L.dir k ∧
    s.paging.page_directory_used k = true ∧
    ∀ j ≠ 0x300, (s.paging.page_directory_list k j).IsPresent →
      ∃ g, s.paging.page_directory_list k j = userEntry g ∧ taken g = true
  apart : ∀ {i j taken taken'}, Owner s made i taken → Owner s made j taken' → i ≠ j →
    s.dirOf i ≠ s.dirOf j

theorem spaces_initial (L : Linkage) : Spaces L (.initial L) fun _ => none :=
  ⟨fun h => absurd h.2 (by simp), fun h => absurd h.2 (by simp)⟩

section

variable {L : Linkage} {s s' : Kernel} {made : Frames} {r : ProcessRequest} {p i : Fin 16} {d : Fin 32}

/-- A step that keeps live slots, directories in use and the pointers to them keeps the invariant. -/
theorem Spaces.frame (h : Spaces L s made) {made' : Frames}
    (hown : ∀ {i taken}, Owner s' made' i taken → Owner s made i taken)
    (hdir : ∀ {i taken k}, Owner s' made' i taken → (s'.dirOf i = L.dir k ↔ s.dirOf i = L.dir k))
    (htable : ∀ {i taken k}, Owner s' made' i taken → s.dirOf i = L.dir k →
      s.paging.page_directory_used k = true → s'.paging.page_directory_used k = true ∧
        s'.paging.page_directory_list k = s.paging.page_directory_list k) : Spaces L s' made' where
  dir {i taken} hi := by
    obtain ⟨k, hk, hu, hj⟩ := h.dir (hown hi)
    obtain ⟨hu', hlist⟩ := htable hi hk hu
    exact ⟨k, (hdir hi).mpr hk, hu', fun j hj0 hpres => by
      rw [hlist] at hpres ⊢
      exact hj j hj0 hpres⟩
  apart {i j taken taken'} hi hj hij he := by
    obtain ⟨k, hk, -⟩ := h.dir (hown hi)
    have hi' := (hdir hi).mpr hk
    rw [he] at hi'
    exact h.apart (hown hi) (hown hj) hij (hk.trans ((hdir hj).mp hi').symm)

theorem owner_of_claim {code : ℤ} {taken : Fin 32 → Bool} (hp : s.list_of_process p = false)
    (hlist : s'.list_of_process = Function.update s.list_of_process p true)
    (h : Owner s' (Frames.next s (.create r code) s' made) i taken) (hi : i ≠ p) : Owner s made i taken := by
  obtain ⟨hlive, hmade⟩ := h
  rw [hlist, Function.update_of_ne hi] at hlive
  rw [Frames.next_create, if_neg fun h => hi ((becomes_live_iff hp hlist).mp h)] at hmade
  exact ⟨hlive, hmade⟩

/-- The new process has a directory with its own frames only. -/
theorem Created.entries (h : Created L s s' r p d) (hs : KInv L s) {j : Fin 1024} (hj : j ≠ 0x300)
    (hpres : (s'.paging.page_directory_list d j).IsPresent) :
    ∃ g, s'.paging.page_directory_list d j = userEntry g ∧ s.paging.page_frame_map g = false ∧
      s'.paging.page_frame_map g = true := by
  rcases (h.grows hs).entry j with he | ⟨g, -, hg, hg', he⟩
  · rw [he] at hpres
    simp only [takeDirectory, Function.update_self, Function.update_of_ne hj, hs.paging.clean h.dir.1] at hpres
    exact absurd hpres not_isPresent_empty
  · exact ⟨g, he, hg, hg'⟩

theorem Created.table_of_ne (h : Created L s s' r p d) (hs : KInv L s) {k : Fin 32} (hk : k ≠ d) :
    s'.paging.page_directory_list k = s.paging.page_directory_list k := by
  rw [(h.grows hs).other k hk]
  exact Function.update_of_ne hk _ _

/-- **A creation gives the new process an address space of its own.** -/
theorem Created.spaces (h : Created L s s' r p d) (hs : KInv L s) (hm : Spaces L s made) :
    Spaces L s' (Frames.next s (.create r 0) s' made) := by
  have hdir := h.dirOf_self
  have hdir_of_ne : ∀ {i}, i ≠ p → s'.dirOf i = s.dirOf i := h.dirOf_of_ne
  -- the directories in use before do not include the new one
  have hold : ∀ {i taken}, Owner s' (Frames.next s (.create r 0) s' made) i taken → i ≠ p →
      ∃ k, k ≠ d ∧ s'.dirOf i = L.dir k ∧ s.paging.page_directory_used k = true ∧
        ∀ j ≠ 0x300, (s.paging.page_directory_list k j).IsPresent →
          ∃ g, s.paging.page_directory_list k j = userEntry g ∧ taken g = true := by
    intro i taken hi hip
    obtain ⟨k, hk, hu, hj⟩ := hm.dir (owner_of_claim h.slot.1 h.list hi hip)
    refine ⟨k, ?_, by rw [hdir_of_ne hip, hk], hu, hj⟩
    rintro rfl
    rw [h.dir.1] at hu
    exact absurd hu (by simp)
  refine ⟨fun {i taken} hi => ?_, fun {i j taken taken'} hi hj hij he => ?_⟩
  · by_cases hip : i = p
    · subst hip
      refine ⟨d, hdir, by rw [h.used hs, Function.update_self], fun j hj hpres => ?_⟩
      obtain ⟨g, he, hg, hg'⟩ := h.entries hs hj hpres
      have hmade := hi.2
      rw [Frames.next_create, if_pos (h.newborn_iff.mpr rfl), if_pos rfl] at hmade
      refine ⟨g, he, ?_⟩
      rw [← Option.some.inj hmade]
      simp only [hg, hg', Bool.not_false, Bool.and_self]
    · obtain ⟨k, hkd, hk, hu, hj⟩ := hold hi hip
      refine ⟨k, hk, h.used_mono hs hu, fun j hj0 hpres => ?_⟩
      rw [h.table_of_ne hs hkd] at hpres ⊢
      exact hj j hj0 hpres
  · by_cases hip : i = p
    · obtain ⟨l, hld, hl, -⟩ := hold hj fun hjp => hij (hip.trans hjp.symm)
      rw [hip, hdir, hl] at he
      exact hld (L.dir_injective he).symm
    · by_cases hjp : j = p
      · obtain ⟨k, hkd, hk, -⟩ := hold hi hip
        rw [hjp, hdir, hk] at he
        exact hkd (L.dir_injective he)
      · rw [hdir_of_ne hip, hdir_of_ne hjp] at he
        exact hm.apart (owner_of_claim h.slot.1 h.list hi hip) (owner_of_claim h.slot.1 h.list hj hjp) hij he

/-- A slot claimed without a directory owns nothing. -/
theorem Claimed.spaces (h : Claimed s s' p) (hm : Spaces L s made) :
    Spaces L s' (Frames.next s (.create r 3) s' made) := by
  obtain ⟨hslot, -, rfl⟩ := h
  have hne : ∀ {i taken}, Owner (claim s p) (Frames.next s (.create r 3) (claim s p) made) i taken → i ≠ p := by
    rintro i taken hi rfl
    have hmade := hi.2
    rw [Frames.next_create, if_pos ((becomes_live_iff hslot.1 rfl).mpr rfl), if_neg (by decide)] at hmade
    exact absurd hmade (by simp)
  refine hm.frame (fun hi => owner_of_claim hslot.1 rfl hi (hne hi)) (fun hi => ?_) fun _ _ hu => ⟨hu, rfl⟩
  simp only [Kernel.dirOf, claim, Function.update_of_ne (hne hi)]

/-- Destruction of one process leaves the others' address spaces alone. -/
theorem Destroyed.spaces (h : Destroyed L s s' p i) (hs : KInv L s) (hm : Spaces L s made) :
    Spaces L s' made := by
  have hne : ∀ {j taken}, Owner s' made j taken → j ≠ p := fun hj => ne_of_live hj.1 h.dead
  refine hm.frame (fun {j taken} hj => ?_) (fun {j taken k} hj => ?_) fun {j taken k} hj hk hu => ?_
  · have hlive := hj.1
    rw [h.list, Function.update_of_ne (hne hj)] at hlive
    exact ⟨hlive, hj.2⟩
  · rw [h.dirOf]
  · rw [h.paging]
    split_ifs with hd
    · -- directory 0 belongs to the slot destroyed
      have hk0 : k ≠ 0 := by
        rintro rfl
        exact hne hj ((hs.dir_zero hk).trans (h.dir_zero hs hd.symm).2.symm)
      simp only [dropDirectory, Function.update_of_ne hk0]
      exact ⟨hu, trivial⟩
    · exact ⟨hu, rfl⟩

theorem Ticked.spaces {cpu cpu' : Cpu} {next : Fin 16} (h : Ticked L s s' cpu next cpu') (hs : KInv L s)
    (hm : Spaces L s made) : Spaces L s' made := by
  refine hm.frame (fun hj => ⟨h.list ▸ hj.1, hj.2⟩) (fun _ => h.dirOf_iff hs _ _) fun _ _ hu => ?_
  rw [h.paging]
  exact ⟨hu, rfl⟩

end

/-- **A step keeps the address spaces apart.** -/
theorem spaces_step {L : Linkage} {s s' : Kernel} {e : Event} {made : Frames} (hs : KInv L s)
    (hm : Spaces L s made) (h : KStep L s e s') : Spaces L s' (Frames.next s e s' made) := by
  cases e with
  | create r code =>
    rcases create_cases h with ⟨-, rfl⟩ | ⟨rfl, p, hc⟩ | ⟨rfl, p, d, hc⟩
    · have : Frames.next s' (.create r code) s' made = made := by
        funext i
        rw [Frames.next_create, if_neg]
        rintro ⟨h0, h1⟩
        rw [h0] at h1
        exact absurd h1 (by simp)
      rw [this]
      exact hm
    · exact hc.spaces hm
    · exact hc.spaces hs hm
  | destroy pid result =>
    rcases destroy_cases h with ⟨-, rfl⟩ | ⟨-, p, i, -, hd⟩
    · exact hm
    · exact hd.spaces hs hm
  | tick cpu next cpu' =>
    obtain ⟨fuel, h⟩ := h
    exact (tick_cases h).spaces hs hm

/-! ## The result -/

/-- A user mapping is an entry with a frame of its own. -/
theorem PInv.userMaps {p : Paging} (h : PInv p) {k : Fin 32} {f : ℕ}
    (hf : UserMaps (p.page_directory_list k) f) :
    ∃ j g, p.page_directory_list k j = userEntry g ∧ g.val = f ∧ g ≠ 0 ∧ p.page_frame_map g = true := by
  obtain ⟨j, ⟨hpres, huser⟩, rfl⟩ := hf
  have hj : j ≠ 0x300 := by
    rintro rfl
    rcases hu : p.page_directory_used k with _ | _
    · rw [h.clean hu] at hpres
      exact absurd hpres (by decide)
    · rw [h.kernel hu] at huser
      exact absurd huser (by decide)
  obtain ⟨g, h0, hg, he⟩ := h.user hj hpres
  exact ⟨j, g, he, by rw [he]; rfl, h0, hg⟩

theorem Spaces.isolated {L : Linkage} {s : Kernel} {made : Frames} (hm : Spaces L s made) (hs : KInv L s) :
    Isolated L s made where
  space {i taken} hi := by
    obtain ⟨k, hk, hu, hj⟩ := hm.dir hi
    refine ⟨k, hk, hu, ?_, fun f hf => ?_, fun j hj0 hpres => ?_⟩
    · rw [hs.paging.kernel hu, PageDirectoryEntry.IsPresent, PageDirectoryEntry.IsUser]
      decide
    · obtain ⟨-, g, -, hgf, h0, hg⟩ := hs.paging.userMaps hf
      exact ⟨g, hgf, h0, hg⟩
    · obtain ⟨g, he, hg⟩ := hj j hj0 hpres
      exact ⟨g, by rw [he]; rfl, hg⟩
  apart := hm.apart
  disjoint {i j k l taken taken'} hi hj hij hk hl f hf hf' := by
    obtain ⟨a, g, ha, hgf, -⟩ := hs.paging.userMaps hf
    obtain ⟨b, g', hb, hgf', -⟩ := hs.paging.userMaps hf'
    obtain rfl : g' = g := Fin.ext (hgf'.trans hgf.symm)
    obtain rfl := (hs.paging.apart ha hb).1
    exact hm.apart hi hj hij (hk.trans hl.symm)

/-- **Processes are isolated**: in every state of every run, the slots whose creation succeeded have
address spaces of their own. -/
theorem created_slots_isolated (L : Linkage) (es : List Event) (s : Kernel) (made : Frames)
    (h : Run (recorded (KStep L) Frames.next) (.initial L, fun _ => none) es (s, made)) :
    Isolated L s made := by
  obtain ⟨hs, hm⟩ := h.invariant_recorded (KInv L) (Spaces L) (kinv_step L)
    (fun _ _ _ _ => spaces_step) (kinv_initial L) (spaces_initial L)
  exact hm.isolated hs

/-- Sixteen processes, of which the first is destroyed and its slot and directory 0 are used again. -/
theorem created_slots_isolated_reused : ∃ es s made,
    Run (recorded (KStep someLinkage) Frames.next) (.initial someLinkage, fun _ => none) es (s, made) ∧
    (es.length = 21 ∧ s.list_of_process 0 = true ∧ s.list_of_process 1 = true ∧ (made 0).isSome ∧
      (made 1).isSome ∧ s.dirOf 0 = someLinkage.dir 0) ∧ Isolated someLinkage s made := by
  obtain ⟨es, s, made, hrun, hq⟩ := exists_run (perform someLinkage) perform_step Frames.next
    (.initial someLinkage, fun _ => none)
    ([.create shellRequest, .tick (userCpu 0)] ++ List.replicate 14 (.create shellRequest) ++
      [.tick (userCpu 4), .create shellRequest, .destroy 0, .tick (userCpu 8),
        .create { shellRequest with buffer_size := 0xFFC00000 }] : List Action)
    (fun es s made => decide (es.length = 21 ∧ s.list_of_process 0 = true ∧ s.list_of_process 1 = true ∧
      (made 0).isSome ∧ (made 1).isSome ∧ s.dirOf 0 = someLinkage.dir 0)) (by decide +kernel)
  exact ⟨es, s, made, hrun, of_decide_eq_true hq, created_slots_isolated _ es s made hrun⟩

end KeropOS
