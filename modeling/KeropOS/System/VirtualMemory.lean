import KeropOS.Lib.Translation
import KeropOS.Proc.Invariant

/-!
# Virtual memory

What the page directories make of the addresses of user code. The memory is its frames of 4 MiB;
a page of the kernel is not mapped for user code, and its bytes are not in the model.

* `translate`, `space`: the translation of a directory, and of a directory pointer;
* **`PInv.space_oneToOne`**, **`PInv.space_apart`**: no byte is in two places, nor in two spaces;
* `Kernel.space`: the address space of a slot; `current_space`: the one that is loaded;
* **`dirsApart_step`**, **`space_step`**, **`current_space_eq`**: what the steps of the kernel leave alone.
-/

namespace KeropOS

open PROCESS_STATE Translation Transition

/-- A frame, and a place in it. -/
abbrev PhysicalAddress := Fin 1024 × ℕ

/-- The bytes of the memory. -/
abbrev Ram := PhysicalAddress → UInt8

/-! ## Translation -/

/-- Where user code finds the byte at an address. -/
def translate (table : PageDirectory) (virtual_addr : UInt32) : Option PhysicalAddress :=
  if (table (pageIndex virtual_addr)).flag.present_bit && (table (pageIndex virtual_addr)).flag.user_bit then
    some ((table (pageIndex virtual_addr)).lower_address, virtual_addr.toNat % 2 ^ 22)
  else none

/-- The directory at an address. -/
def directoryAt (L : Linkage) (p : Paging) (page_dir : UInt32) : Option PageDirectory :=
  (Fin.find? fun k => L.dir k == page_dir).map p.page_directory_list

/-- The translation of the directory at an address; nothing is mapped where there is none. -/
def space (L : Linkage) (p : Paging) (page_dir virtual_addr : UInt32) : Option PhysicalAddress :=
  (directoryAt L p page_dir).bind fun table => translate table virtual_addr

section

variable {L : Linkage} {p p' : Paging} {k k' : Fin 32} {a a' v w : UInt32} {c : PhysicalAddress}

theorem directoryAt_dir (L : Linkage) (p : Paging) (k : Fin 32) :
    directoryAt L p (L.dir k) = some (p.page_directory_list k) := by
  have hfind : (Fin.find? fun j => L.dir j == L.dir k) = some k := by
    apply Fin.find?_eq_some_iff.mpr
    refine ⟨beq_self_eq_true _, fun j hj => ?_⟩
    exact beq_eq_false_iff_ne.mpr fun h => absurd (L.dir_injective h) (ne_of_lt hj)
  rw [directoryAt, hfind]
  rfl

theorem directoryAt_cases (L : Linkage) (p : Paging) (a : UInt32) :
    (∃ k, a = L.dir k ∧ directoryAt L p a = some (p.page_directory_list k)) ∨
      ((∀ k, a ≠ L.dir k) ∧ directoryAt L p a = none) := by
  by_cases h : ∃ k, a = L.dir k
  · obtain ⟨k, rfl⟩ := h
    exact .inl ⟨k, rfl, directoryAt_dir L p k⟩
  · have hnone : (Fin.find? fun j => L.dir j == a) = none := by
      apply Fin.find?_eq_none_iff.mpr
      exact fun k => beq_eq_false_iff_ne.mpr fun he => h ⟨k, he.symm⟩
    refine .inr ⟨fun k hk => h ⟨k, hk⟩, ?_⟩
    rw [directoryAt, hnone]
    rfl

theorem space_dir (L : Linkage) (p : Paging) (k : Fin 32) :
    space L p (L.dir k) = translate (p.page_directory_list k) := by
  funext v
  rw [space, directoryAt_dir]
  rfl

theorem space_of_ne (h : ∀ k, a ≠ L.dir k) : space L p a = fun _ => none := by
  rcases directoryAt_cases L p a with ⟨k, hk, -⟩ | ⟨-, hnone⟩
  · exact absurd hk (h k)
  · funext v
    rw [space, hnone]
    rfl

theorem dir_of_space (h : space L p a v = some c) :
    ∃ k, a = L.dir k ∧ translate (p.page_directory_list k) v = some c := by
  by_cases hk : ∃ k, a = L.dir k
  · obtain ⟨k, rfl⟩ := hk
    rw [space_dir] at h
    exact ⟨k, rfl, h⟩
  · rw [space_of_ne fun k he => hk ⟨k, he⟩] at h
    exact absurd h (by simp)

/-- Two pointers to the same table are the same space. -/
theorem space_congr (hdir : ∀ k, a' = L.dir k ↔ a = L.dir k)
    (htable : ∀ k, a = L.dir k → p'.page_directory_list k = p.page_directory_list k) :
    space L p' a' = space L p a := by
  by_cases h : ∃ k, a = L.dir k
  · obtain ⟨k, hk⟩ := h
    rw [(hdir k).mpr hk, hk, space_dir, space_dir, htable k hk]
  · rw [space_of_ne fun k he => h ⟨k, he⟩, space_of_ne fun k he => h ⟨k, (hdir k).mp he⟩]

/-- An address that is mapped is in a frame of the directory. -/
theorem PInv.entry_of_translate (h : PInv p) (hv : translate (p.page_directory_list k) v = some c) :
    ∃ g, p.page_directory_list k (pageIndex v) = userEntry g ∧ c.1.val = g ∧ c.2 = v.toNat % 2 ^ 22 := by
  unfold translate at hv
  split_ifs at hv with huser
  obtain rfl := Option.some.inj hv
  rw [Bool.and_eq_true] at huser
  have hpage : pageIndex v ≠ 0x300 := by
    intro hpage
    rw [hpage] at huser
    cases hused : p.page_directory_used k with
    | false =>
      rw [h.clean hused] at huser
      exact absurd huser.1 (by decide)
    | true =>
      rw [h.kernel hused] at huser
      exact absurd huser.2 (by decide)
  obtain ⟨g, -, -, he⟩ := h.user hpage huser.1
  refine ⟨g, he, ?_, rfl⟩
  rw [he]
  rfl

/-- The page and the place in it are the address. -/
theorem address_ext (hpage : pageIndex v = pageIndex w) (hplace : v.toNat % 2 ^ 22 = w.toNat % 2 ^ 22) :
    v = w := by
  have hv := v.toNat_lt
  have hw := w.toNat_lt
  have hval := congrArg Fin.val hpage
  simp only [pageIndex, Fin.ofNat] at hval
  apply UInt32.toNat_inj.mp
  omega

theorem PInv.same_place (h : PInv p) (hv : translate (p.page_directory_list k) v = some c)
    (hw : translate (p.page_directory_list k') w = some c) : k = k' ∧ v = w := by
  obtain ⟨g, he, hg, hplace⟩ := h.entry_of_translate hv
  obtain ⟨g', he', hg', hplace'⟩ := h.entry_of_translate hw
  obtain rfl : g = g' := Fin.ext (hg.symm.trans hg')
  obtain ⟨hk, hpage⟩ := h.apart he he'
  exact ⟨hk, address_ext hpage (hplace.symm.trans hplace')⟩

/-- **No byte is in two places** of an address space. -/
theorem PInv.space_oneToOne (h : PInv p) (a : UInt32) : OneToOne (space L p a) := by
  intro v w c hv hw
  obtain ⟨k, rfl, hvk⟩ := dir_of_space hv
  rw [space_dir] at hw
  exact (h.same_place hvk hw).2

/-- **No byte is in two address spaces.** -/
theorem PInv.space_apart (h : PInv p) (hne : a ≠ a') : Apart (space L p a) (space L p a') := by
  intro v w c hv hw
  obtain ⟨k, rfl, hvk⟩ := dir_of_space hv
  obtain ⟨k', rfl, hwk⟩ := dir_of_space hw
  exact hne (congrArg L.dir (h.same_place hvk hwk).1)

end

/-! ## The address spaces of the slots -/

/-- The address space of a slot. -/
def Kernel.space (L : Linkage) (s : Kernel) (i : Fin 16) : UInt32 → Option PhysicalAddress :=
  KeropOS.space L s.paging (s.dirOf i)

/-- The address space that CR3 has loaded. -/
def Kernel.current_space (L : Linkage) (s : Kernel) : UInt32 → Option PhysicalAddress :=
  KeropOS.space L s.paging (paging_get_current_page_directory_addr s.paging)

/-- No directory belongs to two slots. -/
def DirsApart (L : Linkage) (s : Kernel) : Prop :=
  ∀ ⦃i j k⦄, s.dirOf i = L.dir k → s.dirOf j = L.dir k → i = j

/-- Slot 0 does not run on a free directory. -/
def ZeroIdle (s : Kernel) : Prop :=
  s.paging.page_directory_used 0 = false → (s.process_list 0).state ≠ RUNNING

section

variable {L : Linkage} {s s' : Kernel} {i j p : Fin 16} {d : Fin 32} {r : ProcessRequest} {e : Event}

theorem dirsApart_initial (L : Linkage) : DirsApart L (.initial L) :=
  fun _ _ _ h => absurd h (Junk.ne_dir (.inl rfl) L _)

/-- A directory that a slot points to is in use, or it is directory 0, of slot 0. -/
theorem KInv.used_or_zero (hs : KInv L s) {k : Fin 32} (hi : s.dirOf i = L.dir k) :
    s.paging.page_directory_used k = true ∨ (k = 0 ∧ i = 0) := by
  by_cases hk : k = 0
  · subst hk
    exact .inr ⟨rfl, hs.dir_zero hi⟩
  · exact .inl (hs.dir_used hi hk)

/-- The new directory belongs to no other slot. -/
theorem Created.dirOf_ne (h : Created L s s' r p d) (hs : KInv L s) (hi : i ≠ p) : s.dirOf i ≠ L.dir d := by
  intro hd
  rcases hs.used_or_zero hd with hused | ⟨hd0, hi0⟩
  · rw [h.dir.1] at hused
    exact absurd hused (by decide)
  · -- directory 0 is free, and so is slot 0, which is the first
    have hdead : s.list_of_process 0 = false := hs.slot_zero (hd0 ▸ h.dir.1)
    rw [hi0] at hi
    exact h.slot.2 0 (Fin.pos_of_ne_zero (Ne.symm hi)) hdead

/-- **A step keeps the directories apart.** -/
theorem dirsApart_step (hs : KInv L s) (hd : DirsApart L s) (h : KStep L s e s') : DirsApart L s' := by
  intro i j k hi hj
  cases e with
  | create r code =>
    rcases create_cases h with ⟨-, rfl⟩ | ⟨-, p, hc⟩ | ⟨-, p, d, hc⟩
    · exact hd hi hj
    · rw [hc.eq, claim_dirOf] at hi hj
      exact hd hi hj
    · by_cases hip : i = p
      · subst hip
        by_contra hji
        obtain rfl := L.dir_injective (hc.dirOf_self.symm.trans hi)
        rw [hc.dirOf_of_ne (Ne.symm hji)] at hj
        exact hc.dirOf_ne hs (Ne.symm hji) hj
      · rw [hc.dirOf_of_ne hip] at hi
        by_cases hjp : j = p
        · subst hjp
          obtain rfl := L.dir_injective (hc.dirOf_self.symm.trans hj)
          exact absurd hi (hc.dirOf_ne hs hip)
        · rw [hc.dirOf_of_ne hjp] at hj
          exact hd hi hj
  | destroy pid result =>
    rcases destroy_cases h with ⟨-, rfl⟩ | ⟨-, p, q, -, hc⟩
    · exact hd hi hj
    · rw [hc.dirOf] at hi hj
      exact hd hi hj
  | tick cpu next cpu' =>
    obtain ⟨fuel, h⟩ := h
    have ht := tick_cases h
    exact hd ((ht.dirOf_iff hs i k).mp hi) ((ht.dirOf_iff hs j k).mp hj)

/-- **A step keeps slot 0 from running on a free directory.** -/
theorem zeroIdle_step (hs : KInv L s) (h0 : ZeroIdle s) (h : KStep L s e s') : ZeroIdle s' := by
  intro hfree hrun
  cases e with
  | create r code =>
    rcases create_cases h with ⟨-, rfl⟩ | ⟨-, p, hc⟩ | ⟨-, p, d, hc⟩
    · exact h0 hfree hrun
    · rw [hc.eq, claim_state] at hrun
      rw [hc.eq] at hfree
      exact h0 hfree hrun
    · rw [hc.pcb_of_ne (hc.ne_of_running hrun)] at hrun
      apply h0 _ hrun
      by_contra hused
      rw [hc.used_mono hs (Bool.not_eq_false _ ▸ hused)] at hfree
      exact absurd hfree (by decide)
  | destroy pid result =>
    rcases destroy_cases h with ⟨-, rfl⟩ | ⟨-, p, q, -, hc⟩
    · exact h0 hfree hrun
    · rw [hc.paging] at hfree
      rw [hc.pcbs, Function.update_apply] at hrun
      split_ifs at hrun with hq
      split_ifs at hfree with hzero
      · exact hq (hs.dir_zero hzero.symm).symm
      · exact h0 hfree hrun
  | tick cpu next cpu' =>
    obtain ⟨fuel, h⟩ := h
    have ht := tick_cases h
    obtain rfl := (ht.running_iff hs).mp hrun
    rw [ht.paging, use_page_directory_used] at hfree
    have hlive : s.list_of_process 0 = true := ht.chosen.1
    rw [hs.slot_zero hfree] at hlive
    exact absurd hlive (by decide)

/-- **The address space of a live process stays as it is.** -/
theorem space_step (hs : KInv L s) (h : KStep L s e s') (hi : s.list_of_process i = true)
    (hi' : s'.list_of_process i = true) : s'.space L i = s.space L i := by
  cases e with
  | create r code =>
    rcases create_cases h with ⟨-, rfl⟩ | ⟨-, p, hc⟩ | ⟨-, p, d, hc⟩
    · rfl
    · rw [hc.eq, Kernel.space, claim_dirOf]
      rfl
    · have hip : i ≠ p := by
        rintro rfl
        rw [hc.slot.1] at hi
        exact absurd hi (by decide)
      apply space_congr
      · intro k
        rw [hc.dirOf_of_ne hip]
      · intro k hk
        have hkd : k ≠ d := fun hkd => hc.dirOf_ne hs hip (hkd ▸ hk)
        rw [(hc.grows hs).other k hkd]
        exact Function.update_of_ne hkd _ _
  | destroy pid result =>
    rcases destroy_cases h with ⟨-, rfl⟩ | ⟨-, p, q, -, hc⟩
    · rfl
    · have hip : i ≠ p := by
        rintro rfl
        rw [hc.dead] at hi'
        exact absurd hi' (by decide)
      apply space_congr
      · intro k
        rw [hc.dirOf]
      · intro k hk
        rw [hc.paging]
        split_ifs with hzero
        · have hk0 : k ≠ 0 := by
            rintro rfl
            exact hip ((hs.dir_zero hk).trans (hc.dir_zero hs hzero.symm).2.symm)
          exact Function.update_of_ne hk0 _ _
        · rfl
  | tick cpu next cpu' =>
    obtain ⟨fuel, h⟩ := h
    have ht := tick_cases h
    apply space_congr
    · exact ht.dirOf_iff hs i
    · intro k _
      rw [ht.paging, use_page_directory_list]

theorem current_space_of_matches {a : UInt32} (h : Matches L a s.paging.cr3) :
    s.current_space L = KeropOS.space L s.paging a := by
  rw [Kernel.current_space, paging_get_current_page_directory_addr]
  rcases h.current with ⟨k, hk, hcur⟩ | ⟨hjunk, hcur⟩
  · rw [hcur, hk]
  · rw [space_of_ne (hcur.ne_dir L), space_of_ne (hjunk.ne_dir L)]

/-- **The process that runs has its own address space loaded.** -/
theorem current_space_eq (hs : KInv L s) (hi : (s.process_list i).state = RUNNING) :
    s.current_space L = s.space L i := current_space_of_matches (hs.loaded hi)

end

end KeropOS
