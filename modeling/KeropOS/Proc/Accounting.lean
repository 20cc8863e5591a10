import KeropOS.Proc.Admission

/-!
# Taking page frames and giving them back

The two calls on page frames, on any directory: those of `page_directory_list` and the kernel's own. The
frame map, the count and the directories say three times who has which frame.

* `PageMemory`, `paging_free_user_page_frame`; `FrameCall`, `FrameStep`: sequences of calls;
  `paging_allocate_eq`: the call of process creation is the same one;
* `Accounted`, `Honest`: the property; `Sensible`: the calls that keep it;
* `Owned`, **`Owned.step`**: the invariant; **`Owned.not_honest`**: the other calls break the property;
* **`frames_accounted_iff`**: every sequence of calls.
-/

namespace KeropOS

open Transition

/-! ## Data -/

/-- `page_manager_state` and the directories: `none` is `_paging_kernel_page_directory`, and `some i` is
`page_directory_list[i]`. -/
structure PageMemory where
  page_frame_map : Fin 32 → Bool
  free_page_frame_count : UInt32
  table : Option (Fin 32) → PageDirectory

/-- What `paging.c` keeps, with the kernel's directory. -/
def Paging.memory (p : Paging) (kernel : PageDirectory) : PageMemory where
  page_frame_map := p.page_frame_map
  free_page_frame_count := p.free_page_frame_count
  table
    | none => kernel
    | some i => p.page_directory_list i

/-- `_paging_kernel_page_directory`. -/
def kernelDirectory : PageDirectory :=
  Function.update (Function.update (fun _ => {}) 0 kernelEntry) 0x300 kernelEntry

namespace PageMemory

/-- The memory at boot. -/
def initial : PageMemory where
  page_frame_map i := i = 0
  free_page_frame_count := 31
  table
    | none => kernelDirectory
    | some _ => fun _ => {}

/-- `page_manager_state` is initial, and the directories have no entries but the kernel's. -/
structure Initial (m : PageMemory) : Prop where
  map : ∀ f, m.page_frame_map f = true ↔ f = 0
  count : m.free_page_frame_count = 31
  entry : ∀ d j, m.table d j = {} ∨ m.table d j = kernelEntry

/-! ## Functions -/

def paging_allocate_user_page_frame (m : PageMemory) (page_dir : Option (Fin 32)) (virtual_addr : UInt32) :
    Bool × PageMemory :=
  match Fin.find? fun i : Fin 32 => decide (1 ≤ i.val) && !m.page_frame_map i with
  | some i =>
    (true, {
      page_frame_map := Function.update m.page_frame_map i true
      table := Function.update m.table page_dir
        (update_page_directory_entry (m.table page_dir) (PAGE_FRAME_SIZE * UInt32.ofNat i) virtual_addr
          { present_bit := true, write_bit := true, user_bit := true, use_pagesize_4_mb := true })
      free_page_frame_count := m.free_page_frame_count - 1 })
  | none => (true, m)

def paging_free_user_page_frame (m : PageMemory) (page_dir : Option (Fin 32)) (virtual_addr : UInt32) :
    Except Trap (Bool × PageMemory) :=
  let page_index := pageIndex virtual_addr
  let physical_addr := UInt32.ofNat (m.table page_dir page_index).lower_address <<< 22
  if h : (physical_addr / PAGE_FRAME_SIZE).toNat < 32 then
    .ok (true, {
      page_frame_map := Function.update m.page_frame_map ⟨(physical_addr / PAGE_FRAME_SIZE).toNat, h⟩ false
      free_page_frame_count := m.free_page_frame_count + 1
      table := Function.update m.table page_dir
        (update_page_directory_entry (m.table page_dir) 0 virtual_addr {}) })
  else .error .outOfBounds

end PageMemory

/-- Process creation takes its frames in this way. -/
theorem paging_allocate_eq (p : Paging) (kernel : PageDirectory) (d : Fin 32) (virtual_addr : UInt32) :
    (p.memory kernel).paging_allocate_user_page_frame (some d) virtual_addr =
      ((paging_allocate_user_page_frame p d virtual_addr).1,
        (paging_allocate_user_page_frame p d virtual_addr).2.memory kernel) := by
  unfold PageMemory.paging_allocate_user_page_frame paging_allocate_user_page_frame
  rcases hf : Fin.find? fun i : Fin 32 => decide (1 ≤ i.val) && !p.page_frame_map i with _ | f
  · simp only [Paging.memory, hf]
  · simp only [Paging.memory, hf, Prod.mk.injEq, PageMemory.mk.injEq, true_and]
    funext k
    rcases k with _ | k
    · rfl
    · by_cases hk : k = d
      · subst hk
        simp only [Function.update_self]
      · have hsome : some k ≠ some d := fun h => hk (Option.some.inj h)
        simp only [Function.update_of_ne hk, Function.update_of_ne hsome]

/-- The two calls, with their results. -/
inductive FrameCall
  | allocate (page_dir : Option (Fin 32)) (virtual_addr : UInt32) (result : Bool)
  | free (page_dir : Option (Fin 32)) (virtual_addr : UInt32) (result : Bool)

def FrameStep (m : PageMemory) : FrameCall → PageMemory → Prop
  | .allocate d a result, m' => m.paging_allocate_user_page_frame d a = (result, m')
  | .free d a result, m' => m.paging_free_user_page_frame d a = .ok (result, m')

/-! ## The property -/

/-- The three views agree: the count is that of the frames marked free, frame 0 is not one of them, and
neither is a frame that an entry maps. -/
structure Accounted (m : PageMemory) : Prop where
  count : m.free_page_frame_count.toNat = trues fun f => !m.page_frame_map f
  reserved : m.page_frame_map 0 = true
  mapped : ∀ {d j} {f : Fin 32}, (m.table d j).IsPresent → (m.table d j).lower_address.val = f →
    m.page_frame_map f = true

/-- Where `paging_allocate_user_page_frame` returns true, the address is mapped to a frame that was free. -/
def MapsFree (m : PageMemory) (e : FrameCall) (m' : PageMemory) : Prop :=
  ∀ d a, e = .allocate d a true →
    ∃ f, m.page_frame_map f = false ∧ (m'.table d (pageIndex a)).MapsTo f

def Honest (m : PageMemory) (e : FrameCall) (m' : PageMemory) : Prop := Accounted m' ∧ MapsFree m e m'

/-- A frame is taken when one is free, and given back from an address that user code has mapped. -/
def Sensible (m : PageMemory) : FrameCall → Prop
  | .allocate _ _ _ => ∃ f ≠ 0, m.page_frame_map f = false
  | .free d a _ => (m.table d (pageIndex a)).IsUser

/-! ## What the calls do -/

namespace PageMemory

/-- The memory after frame `f` was taken for the page of `a` in directory `d`. -/
def take (m : PageMemory) (d : Option (Fin 32)) (a : UInt32) (f : Fin 32) : PageMemory where
  page_frame_map := Function.update m.page_frame_map f true
  free_page_frame_count := m.free_page_frame_count - 1
  table := Function.update m.table d (Function.update (m.table d) (pageIndex a) (userEntry f))

/-- The memory after frame `f` was given back, and the entry of the page of `a` in directory `d` cleared. -/
def giveBack (m : PageMemory) (d : Option (Fin 32)) (a : UInt32) (f : Fin 32) : PageMemory where
  page_frame_map := Function.update m.page_frame_map f false
  free_page_frame_count := m.free_page_frame_count + 1
  table := Function.update m.table d (Function.update (m.table d) (pageIndex a) {})

variable {m m' : PageMemory} {d : Option (Fin 32)} {a : UInt32} {result : Bool}

theorem allocate_spec (m : PageMemory) (d : Option (Fin 32)) (a : UInt32) :
    (∃ f, f ≠ 0 ∧ m.page_frame_map f = false ∧
      m.paging_allocate_user_page_frame d a = (true, m.take d a f)) ∨
    ((∀ f, f ≠ 0 → m.page_frame_map f = true) ∧ m.paging_allocate_user_page_frame d a = (true, m)) := by
  have hpos : ∀ f : Fin 32, 1 ≤ f.val ↔ f ≠ 0 := by decide
  unfold paging_allocate_user_page_frame
  rcases hf : Fin.find? fun i : Fin 32 => decide (1 ≤ i.val) && !m.page_frame_map i with _ | f
  · refine .inr ⟨fun f hf0 => ?_, rfl⟩
    have := Fin.find?_eq_none_iff.mp hf f
    simpa [(hpos f).mpr hf0] using this
  · have := (Fin.find?_eq_some_iff.mp hf).1
    rw [Bool.and_eq_true, decide_eq_true_eq, Bool.not_eq_true'] at this
    refine .inl ⟨f, (hpos f).mp this.1, this.2, ?_⟩
    simp only [take, update_page_directory_entry, frame_address]
    rfl

/-- The address of a frame, as the entry has it, divided by the size of a frame. -/
theorem frame_of_lower_address : ∀ l : Fin 1024, (UInt32.ofNat l <<< 22 / PAGE_FRAME_SIZE).toNat = l := by
  decide +kernel

theorem free_spec {f : Fin 32} (hf : (m.table d (pageIndex a)).lower_address.val = f) :
    m.paging_free_user_page_frame d a = .ok (true, m.giveBack d a f) := by
  have hl := frame_of_lower_address (m.table d (pageIndex a)).lower_address
  have hlt := f.isLt
  have hfin : ∀ h, (⟨(UInt32.ofNat (m.table d (pageIndex a)).lower_address <<< 22 /
      PAGE_FRAME_SIZE).toNat, h⟩ :
      Fin 32) = f := fun _ => Fin.ext (hl.trans hf)
  unfold paging_free_user_page_frame
  rw [dif_pos (by omega)]
  simp only [hfin, giveBack, update_page_directory_entry]
  rfl

end PageMemory

/-! ## The invariant -/

/-- The views agree, and every entry is empty, the kernel's, or the only one for its frame. -/
structure Owned (m : PageMemory) : Prop extends Accounted m where
  entry : ∀ d j, m.table d j = {} ∨ m.table d j = kernelEntry ∨ ∃ f, f ≠ 0 ∧ m.table d j = userEntry f
  once : ∀ {d j d' j' f}, m.table d j = userEntry f → m.table d' j' = userEntry f → d = d' ∧ j = j'

theorem not_isUser_kernelEntry : ¬ kernelEntry.IsUser := fun h => absurd h.2 (by decide)

theorem not_isUser_empty : ¬ ({} : PageDirectoryEntry).IsUser := fun h => not_isPresent_empty h.1

theorem userEntry_ne_empty (f : Fin 32) : userEntry f ≠ {} := fun h =>
  not_isUser_empty (h ▸ (⟨rfl, rfl⟩ : (userEntry f).IsUser))

/-- An entry of the table after one of them was changed. -/
theorem update_table_cases (table : Option (Fin 32) → PageDirectory) (d d' : Option (Fin 32)) (i j : Fin 1024)
    (e : PageDirectoryEntry) :
    (d' = d ∧ j = i ∧ Function.update table d (Function.update (table d) i e) d' j = e) ∨
    (¬ (d' = d ∧ j = i) ∧ Function.update table d (Function.update (table d) i e) d' j = table d' j) := by
  by_cases hd : d' = d
  · subst hd
    rw [Function.update_self]
    by_cases hj : j = i
    · exact .inl ⟨rfl, hj, by rw [hj, Function.update_self]⟩
    · exact .inr ⟨fun h => hj h.2, Function.update_of_ne hj _ _⟩
  · exact .inr ⟨fun h => hd h.1, by rw [Function.update_of_ne hd]⟩

section

variable {m m' : PageMemory} {e : FrameCall} {d d' : Option (Fin 32)} {a : UInt32} {j : Fin 1024} {f : Fin 32}

theorem PageMemory.Initial.owned (h : m.Initial) : Owned m where
  count := by
    rw [h.count, trues, Finset.filter_congr fun f _ => show (!m.page_frame_map f) = true ↔ f ≠ 0 by
      rw [Bool.not_eq_true', ← Bool.not_eq_true, h.map]]
    decide
  reserved := (h.map 0).mpr rfl
  mapped {d j f} hp hf := by
    rcases h.entry d j with he | he <;> rw [he] at hp hf
    · exact absurd hp not_isPresent_empty
    · exact (h.map f).mpr (Fin.ext hf.symm)
  entry d j := (h.entry d j).imp id .inl
  once {d j _ _ f} he _ := by
    rcases h.entry d j with h | h <;> rw [h] at he
    · exact absurd he.symm (userEntry_ne_empty f)
    · exact absurd he.symm (userEntry_ne_kernelEntry f)

namespace Owned

theorem isUser (h : Owned m) (hu : (m.table d j).IsUser) : ∃ f, f ≠ 0 ∧ m.table d j = userEntry f := by
  rcases h.entry d j with he | he | he
  · exact absurd (he ▸ hu) not_isUser_empty
  · exact absurd (he ▸ hu) not_isUser_kernelEntry
  · exact he

/-- An entry that is not one of user code names frame 0. -/
theorem lower_address (h : Owned m) (hu : ¬ (m.table d j).IsUser) :
    (m.table d j).lower_address.val = (0 : Fin 32).val := by
  rcases h.entry d j with he | he | ⟨f, -, he⟩
  · rw [he]; rfl
  · rw [he]; rfl
  · exact absurd (he ▸ ⟨rfl, rfl⟩) hu

/-- No entry maps a free frame. -/
theorem not_mapped (h : Owned m) (hf : m.page_frame_map f = false) : m.table d j ≠ userEntry f := fun he => by
  have := h.mapped (d := d) (j := j) (f := f) (by rw [he]; rfl) (by rw [he]; rfl)
  rw [hf] at this
  exact absurd this (by simp)

/-- Taking a free frame. -/
theorem take (h : Owned m) (hf0 : f ≠ 0) (hf : m.page_frame_map f = false) (d : Option (Fin 32))
    (a : UInt32) :
    Owned (m.take d a f) where
  count := by
    have htrues : trues (fun g => !Function.update m.page_frame_map f true g) + 1 =
        trues fun g => !m.page_frame_map g := by
      rw [not_update]
      exact trues_clear (by rw [hf]; rfl)
    have hcount := h.count
    simp only [PageMemory.take]
    rw [UInt32.toNat_sub_of_le _ _ (UInt32.le_iff_toNat_le.mpr (by rw [UInt32.toNat_one]; omega)),
      UInt32.toNat_one]
    omega
  reserved := by
    simp only [PageMemory.take, Function.update_of_ne hf0.symm]
    exact h.reserved
  mapped {d' j g} hp hg := by
    simp only [PageMemory.take] at hp hg ⊢
    rw [Function.update_apply]
    split_ifs with hgf
    · rfl
    · rcases update_table_cases m.table d d' (pageIndex a) j (userEntry f) with ⟨-, -, he⟩ | ⟨-, he⟩
      · rw [he] at hg
        exact absurd (Fin.ext hg.symm) hgf
      · rw [he] at hp hg
        exact h.mapped hp hg
  entry d' j := by
    rcases update_table_cases m.table d d' (pageIndex a) j (userEntry f) with ⟨-, -, he⟩ | ⟨-, he⟩
    · exact .inr (.inr ⟨f, hf0, he⟩)
    · simp only [PageMemory.take, he]
      exact h.entry d' j
  once {d₁ j₁ d₂ j₂ g} h₁ h₂ := by
    simp only [PageMemory.take] at h₁ h₂
    rcases update_table_cases m.table d d₁ (pageIndex a) j₁ (userEntry f) with ⟨hd₁, hj₁, he₁⟩ | ⟨-, he₁⟩ <;>
      rcases update_table_cases m.table d d₂ (pageIndex a) j₂ (userEntry f) with
        ⟨hd₂, hj₂, he₂⟩ | ⟨-, he₂⟩ <;>
      rw [he₁] at h₁ <;> rw [he₂] at h₂
    · exact ⟨hd₁.trans hd₂.symm, hj₁.trans hj₂.symm⟩
    · exact absurd (userEntry_injective h₁ ▸ h₂) (h.not_mapped hf)
    · exact absurd (userEntry_injective h₂ ▸ h₁) (h.not_mapped hf)
    · exact h.once h₁ h₂

/-- Giving back the frame that user code has at an address. -/
theorem giveBack (h : Owned m) (hf0 : f ≠ 0) (hf : m.table d (pageIndex a) = userEntry f) :
    Owned (m.giveBack d a f) where
  count := by
    have hused : m.page_frame_map f = true := h.mapped (by rw [hf]; rfl) (by rw [hf]; rfl)
    have htrues : trues (fun g => !Function.update m.page_frame_map f false g) =
        trues (fun g => !m.page_frame_map g) + 1 := by
      rw [not_update]
      exact trues_set (by rw [hused]; rfl)
    have hle := trues_le_size fun g => !Function.update m.page_frame_map f false g
    have hcount := h.count
    simp only [PageMemory.giveBack]
    rw [UInt32.toNat_add, UInt32.toNat_one, Nat.mod_eq_of_lt (by omega)]
    omega
  reserved := by
    simp only [PageMemory.giveBack, Function.update_of_ne hf0.symm]
    exact h.reserved
  mapped {d' j g} hp hg := by
    simp only [PageMemory.giveBack] at hp hg ⊢
    rcases update_table_cases m.table d d' (pageIndex a) j {} with ⟨-, -, he⟩ | ⟨hne, he⟩
    · rw [he] at hp
      exact absurd hp not_isPresent_empty
    · rw [he] at hp hg
      rw [Function.update_of_ne]
      · exact h.mapped hp hg
      · rintro rfl
        -- another entry for the frame
        rcases h.entry d' j with he' | he' | ⟨k, -, he'⟩ <;> rw [he'] at hp hg
        · exact absurd hp not_isPresent_empty
        · exact hf0 (Fin.ext hg.symm)
        · obtain rfl : k = g := Fin.ext hg
          exact hne (h.once he' hf)
  entry d' j := by
    rcases update_table_cases m.table d d' (pageIndex a) j {} with ⟨-, -, he⟩ | ⟨-, he⟩
    · exact .inl he
    · simp only [PageMemory.giveBack, he]
      exact h.entry d' j
  once {d₁ j₁ d₂ j₂ g} h₁ h₂ := by
    simp only [PageMemory.giveBack] at h₁ h₂
    rcases update_table_cases m.table d d₁ (pageIndex a) j₁ {} with ⟨-, -, he₁⟩ | ⟨-, he₁⟩
    · rw [he₁] at h₁
      exact absurd h₁.symm (userEntry_ne_empty g)
    · rcases update_table_cases m.table d d₂ (pageIndex a) j₂ {} with ⟨-, -, he₂⟩ | ⟨-, he₂⟩
      · rw [he₂] at h₂
        exact absurd h₂.symm (userEntry_ne_empty g)
      · rw [he₁] at h₁
        rw [he₂] at h₂
        exact h.once h₁ h₂

/-- **A sensible call keeps the invariant**, and delivers what it says. -/
theorem step (h : Owned m) (hstep : FrameStep m e m') (hs : Sensible m e) : Owned m' ∧ MapsFree m e m' := by
  cases e with
  | allocate d a result =>
    obtain ⟨g, hg0, hg⟩ := hs
    rcases m.allocate_spec d a with ⟨f, hf0, hf, he⟩ | ⟨hall, -⟩
    · obtain ⟨rfl, rfl⟩ := Prod.mk.inj (he.symm.trans hstep)
      refine ⟨h.take hf0 hf d a, fun d' a' heq => ?_⟩
      obtain ⟨rfl, rfl, -⟩ := FrameCall.allocate.inj heq
      refine ⟨f, hf, ?_⟩
      simp only [PageMemory.take, Function.update_self]
      exact mapsTo_userEntry.mpr rfl
    · rw [hall g hg0] at hg
      exact absurd hg (by simp)
  | free d a result =>
    obtain ⟨f, hf0, he⟩ := h.isUser hs
    have hfree := PageMemory.free_spec (m := m) (d := d) (a := a) (f := f) (by rw [he]; rfl)
    obtain ⟨rfl, rfl⟩ := Prod.mk.inj (Except.ok.inj (hfree.symm.trans hstep))
    exact ⟨h.giveBack hf0 he, fun _ _ heq => absurd heq (by simp)⟩

/-- **Any other call breaks the property**: no frame is free, or frame 0 is given back. -/
theorem not_honest (h : Owned m) (hstep : FrameStep m e m') (hs : ¬ Sensible m e) : ¬ Honest m e m' := by
  rintro ⟨hacc, hdel⟩
  cases e with
  | allocate d a result =>
    rcases m.allocate_spec d a with ⟨f, hf0, hf, -⟩ | ⟨hall, he⟩
    · exact hs ⟨f, hf0, hf⟩
    · obtain ⟨rfl, rfl⟩ := Prod.mk.inj (he.symm.trans hstep)
      obtain ⟨f, hf, -⟩ := hdel d a rfl
      by_cases hf0 : f = 0
      · rw [hf0, h.reserved] at hf
        exact absurd hf (by simp)
      · rw [hall f hf0] at hf
        exact absurd hf (by simp)
  | free d a result =>
    have hfree := PageMemory.free_spec (h.lower_address hs)
    obtain ⟨-, rfl⟩ := Prod.mk.inj (Except.ok.inj (hfree.symm.trans hstep))
    have := hacc.reserved
    simp only [PageMemory.giveBack, Function.update_self] at this
    exact absurd this (by simp)

theorem honest_iff (h : Owned m) (hstep : FrameStep m e m') : Honest m e m' ↔ Sensible m e := by
  constructor
  · intro hh
    by_contra hs
    exact h.not_honest hstep hs hh
  · intro hs
    have := h.step hstep hs
    exact ⟨this.1.toAccounted, this.2⟩

end Owned

/-! ## Sequences of calls -/

theorem owned_of_sensible (h₀ : Owned m) {es : List FrameCall}
    (h : Run (fun s e t => FrameStep s e t ∧ Sensible s e) m es m') : Owned m' :=
  h.invariant Owned (fun _ _ _ hs hstep => (hs.step hstep.1 hstep.2).1) h₀

/-- **When the frames are accounted for**: in a sequence of sensible calls, and in no other one. -/
theorem frames_accounted_iff (h₀ : m.Initial) :
    (∀ es m', Run (fun s e t => FrameStep s e t ∧ Sensible s e) m es m' → Accounted m') ∧
    ∀ es m', Run (fun s e t => FrameStep s e t ∧ Honest s e t) m es m' ↔
      Run (fun s e t => FrameStep s e t ∧ Sensible s e) m es m' := by
  refine ⟨fun es m' h => (owned_of_sensible h₀.owned h).toAccounted, fun es m' => ⟨fun h => ?_, fun h => ?_⟩⟩
  · have : ∃ t, Run (fun s e t => FrameStep s e t ∧ Sensible s e) m es t ∧ m' = t ∧ Owned m' :=
      h.simulate (fun s t => s = t ∧ Owned s) (fun s e t hstep s' hs => by
        obtain ⟨rfl, ho⟩ := hs
        have hsens := (ho.honest_iff hstep.1).mp hstep.2
        exact ⟨t, ⟨hstep.1, hsens⟩, rfl, (ho.step hstep.1 hsens).1⟩) ⟨rfl, h₀.owned⟩
    obtain ⟨t, hrun, rfl, -⟩ := this
    exact hrun
  · have : ∃ t, Run (fun s e t => FrameStep s e t ∧ Honest s e t) m es t ∧ m' = t ∧ Owned m' :=
      h.simulate (fun s t => s = t ∧ Owned s) (fun s e t hstep s' hs => by
        obtain ⟨rfl, ho⟩ := hs
        have hhon := (ho.honest_iff hstep.1).mpr hstep.2
        exact ⟨t, ⟨hstep.1, hhon⟩, rfl, (ho.step hstep.1 hstep.2).1⟩) ⟨rfl, h₀.owned⟩
    obtain ⟨t, hrun, rfl, -⟩ := this
    exact hrun

end

theorem initial_initial : PageMemory.initial.Initial where
  map f := by simp [PageMemory.initial]
  count := rfl
  entry d j := by
    rcases d with _ | d
    · simp only [PageMemory.initial, kernelDirectory, Function.update_apply]
      split_ifs
      · exact .inr rfl
      · exact .inr rfl
      · exact .inl rfl
    · exact .inl rfl

/-- A frame is taken while another one is free. -/
theorem allocate_sensible {m : PageMemory} (d : Option (Fin 32)) (a : UInt32)
    (h : ∃ f ≠ 0, m.page_frame_map f = false) :
    ∃ f, FrameStep m (.allocate d a true) (m.take d a f) ∧ Sensible m (.allocate d a true) := by
  obtain ⟨g, hg0, hg⟩ := h
  rcases m.allocate_spec d a with ⟨f, -, -, hstep⟩ | ⟨hall, -⟩
  · exact ⟨f, hstep, g, hg0, hg⟩
  · rw [hall g hg0] at hg
    exact absurd hg (by decide)

/-- Two directories take a frame each, and the first gives its frame back. -/
theorem frames_accounted_twice : ∃ m', Run (fun s e t => FrameStep s e t ∧ Honest s e t) .initial
    [.allocate (some 0) 0 true, .allocate (some 1) 0 true, .free (some 0) 0 true] m' ∧ Accounted m' := by
  obtain ⟨haccounted, hiff⟩ := frames_accounted_iff initial_initial
  obtain ⟨f, h₁⟩ := allocate_sensible (m := .initial) (some 0) 0 ⟨1, by decide, rfl⟩
  have hfree : ∃ g ≠ 0, (PageMemory.initial.take (some 0) 0 f).page_frame_map g = false := by
    have hother : ∃ g ≠ 0, g ≠ f := by
      clear h₁
      revert f
      decide
    obtain ⟨g, hg0, hgf⟩ := hother
    refine ⟨g, hg0, ?_⟩
    simp only [PageMemory.take, Function.update_of_ne hgf, PageMemory.initial, hg0, decide_false]
  obtain ⟨g, h₂⟩ := allocate_sensible (some 1) 0 hfree
  obtain ⟨m, hm⟩ : ∃ m, m = (PageMemory.initial.take (some 0) 0 f).take (some 1) 0 g := ⟨_, rfl⟩
  rw [← hm] at h₂
  have hentry : m.table (some 0) (pageIndex 0) = userEntry f := by
    have hne : (some 0 : Option (Fin 32)) ≠ some 1 := by decide
    simp only [hm, PageMemory.take, Function.update_of_ne hne, Function.update_self]
  have h₃ : FrameStep m (.free (some 0) 0 true) (m.giveBack (some 0) 0 f) ∧
      Sensible m (.free (some 0) 0 true) := by
    refine ⟨PageMemory.free_spec (by rw [hentry]; rfl), ?_⟩
    show (m.table (some 0) (pageIndex 0)).IsUser
    rw [hentry]
    exact ⟨rfl, rfl⟩
  have hrun : Run (fun s e t => FrameStep s e t ∧ Sensible s e) .initial
      [.allocate (some 0) 0 true, .allocate (some 1) 0 true, .free (some 0) 0 true]
      (m.giveBack (some 0) 0 f) :=
    ((Run.nil.snoc h₁).snoc h₂).snoc h₃
  exact ⟨_, (hiff _ _).mpr hrun, haccounted _ _ hrun⟩

/-- Giving back a page that was never mapped gives the kernel's frame away. -/
theorem kernel_frame_given_away : ¬ ∀ es m', Run FrameStep .initial es m' → Accounted m' := by
  intro h
  have hfree := PageMemory.free_spec (m := .initial) (d := some 0) (a := 0) (f := 0) rfl
  have := (h [.free (some 0) 0 true] _ (.single hfree)).reserved
  simp only [PageMemory.giveBack, Function.update_self] at this
  exact absurd this (by simp)

end KeropOS
