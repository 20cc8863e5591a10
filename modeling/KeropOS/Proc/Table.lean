import KeropOS.Proc.Conservation

/-!
# The process table along a run

* `Counted`: `active_process_count` is the number of live slots, **`counted_step`**;
* `TableOk`; **`process_table_consistent`**: what holds in every state of every run;
* `FirstHasDirectory`: slot 0 has a directory pointer as soon as there was a creation;
* `ActsOnItsOwn`; **`destroy_acts_on_its_own_iff`**: when `process_destroy` takes the right control block.
-/

namespace KeropOS

open PROCESS_STATE Transition

variable {L : Linkage} {s s' : Kernel} {r : ProcessRequest} {p i : Fin 16}

/-! ## The count -/

/-- The counter is the number of live slots. -/
def Counted (s : Kernel) : Prop := s.active_process_count.toNat = liveSlots s

theorem counted_initial (L : Linkage) : Counted (.initial L) := by
  unfold Counted liveSlots trues
  simp [Kernel.initial]

/-- The counter goes up with the slot. -/
theorem Counted.set (h : Counted s) (hp : s.list_of_process p = false)
    (hlist : s'.list_of_process = Function.update s.list_of_process p true)
    (hcount : s'.active_process_count = s.active_process_count + 1) : Counted s' := by
  have hlive := liveSlots_set hp hlist
  have hle : liveSlots s' ≤ 16 := trues_le_size _
  unfold Counted at h ⊢
  rw [hcount, UInt32.toNat_add, h, hlive]
  exact Nat.mod_eq_of_lt (by have : (1 : UInt32).toNat = 1 := rfl; omega)

/-- The counter goes down with the slot, and was not zero. -/
theorem Counted.clear (h : Counted s) (hp : s.list_of_process p = true)
    (hlist : s'.list_of_process = Function.update s.list_of_process p false)
    (hcount : s'.active_process_count = s.active_process_count - 1) :
    s'.active_process_count.toNat + 1 = s.active_process_count.toNat ∧ Counted s' := by
  have hlive := liveSlots_clear hp hlist
  unfold Counted at h ⊢
  have hle : (1 : UInt32) ≤ s.active_process_count := by
    rw [UInt32.le_iff_toNat_le, h]
    exact (by omega : 1 ≤ liveSlots s)
  have hval : s'.active_process_count.toNat = s.active_process_count.toNat - 1 := by
    rw [hcount, UInt32.toNat_sub_of_le _ _ hle]
    rfl
  omega

/-- **A step keeps the count.** -/
theorem counted_step (L : Linkage) (s : Kernel) (e : Event) (s' : Kernel) (hs : Counted s)
    (h : KStep L s e s') : Counted s' := by
  cases e with
  | create r code =>
    rcases create_cases h with ⟨-, rfl⟩ | ⟨-, p, hc⟩ | ⟨-, p, d, hc⟩
    · exact hs
    · exact hs.set hc.slot.1 (by rw [hc.eq]; rfl) (by rw [hc.eq]; rfl)
    · exact hs.set hc.slot.1 hc.list hc.count
  | destroy pid result =>
    rcases destroy_cases h with ⟨-, rfl⟩ | ⟨-, p, i, -, hd⟩
    · exact hs
    · exact (hs.clear hd.live hd.list hd.count).2
  | tick cpu next cpu' =>
    obtain ⟨fuel, h⟩ := h
    have ht := tick_cases h
    unfold Counted liveSlots at hs ⊢
    rw [ht.list, ht.count]
    exact hs

theorem counted_of_run {es : List Event} (h : Run (KStep L) (.initial L) es s) : Counted s :=
  h.invariant Counted (counted_step L) (counted_initial L)

/-- Below 16 processes a slot is free. -/
theorem Counted.exists_free (h : Counted s) (hlt : s.active_process_count.toNat < 16) :
    ∃ p, s.list_of_process p = false := by
  by_contra hall
  have hfull : liveSlots s = 16 := by
    have : s.list_of_process = fun _ => true := by
      funext p
      by_contra hp
      exact hall ⟨p, by simpa using hp⟩
    unfold liveSlots
    rw [this]
    rfl
  unfold Counted at h
  omega

/-- The process table: the counter is right, a live slot has its own number, the search for a free slot
behind the check of the counter finds one, no access leaves the table, and the counter does not wrap. -/
structure TableOk (L : Linkage) (s : Kernel) : Prop where
  count : s.active_process_count.toNat = liveSlots s
  pids : ∀ i, s.list_of_process i = true → (s.process_list i).pid = UInt32.ofNat i
  inactive : s.active_process_count.toNat < 16 → ∃ p, process_list_get_inactive_index s = some p
  create : ∀ r, ∃ reply, process_create_user_process L s r = .ok reply
  destroy : ∀ pid, ∃ reply, process_destroy L s pid = .ok reply
  no_wrap : ∀ pid s', process_destroy L s pid = .ok (true, s') →
    s'.active_process_count.toNat + 1 = s.active_process_count.toNat

/-- Destroying any number returns. -/
theorem destroy_always_returns (hs : KInv L s) (pid : UInt32) :
    ∃ reply, process_destroy L s pid = .ok reply := by
  by_cases hpid : pid.toNat < 16
  · by_cases hlive : s.list_of_process ⟨pid.toNat, hpid⟩ = true
    · obtain ⟨s', i, h, -⟩ := destroy_returns L hlive (hs.pid_of_live hlive)
      rw [UInt32.ofNat_toNat] at h
      exact ⟨_, h⟩
    · exact ⟨(false, s), by rw [process_destroy, dif_pos hpid, if_pos (by simpa using hlive)]⟩
  · exact ⟨(false, s), by rw [process_destroy, dif_neg hpid]⟩

/-- **The process table is consistent in every state of every run.** -/
theorem process_table_consistent (L : Linkage) (es : List Event) (s : Kernel)
    (h : Run (KStep L) (.initial L) es s) : TableOk L s := by
  have hs := kinv_of_run h
  have hcount := counted_of_run h
  refine ⟨hcount, fun i => hs.pid_of_live, fun hlt => ?_, fun r => ?_, destroy_always_returns hs,
    fun pid s' hd => ?_⟩
  · rcases inactive_cases s with ⟨p, -, hp⟩ | ⟨hall, -⟩
    · exact ⟨p, hp⟩
    · obtain ⟨p, hp⟩ := hcount.exists_free hlt
      rw [hall p] at hp
      exact absurd hp (by simp)
  · exact create_returns L s r hcount.exists_free
  · rcases destroy_cases hd with ⟨hf, -⟩ | ⟨-, p, i, -, hd⟩
    · exact absurd hf (by simp)
    · exact (hcount.clear hd.live hd.list hd.count).1

/-- Three processes are created, the first is destroyed while it runs, another takes its slot, and the second
is destroyed. -/
theorem process_table_consistent_reused : ∃ es s, Run (KStep someLinkage) (.initial someLinkage) es s ∧
    (es.length = 8 ∧ s.active_process_count = 2 ∧ s.list_of_process 0 = true ∧ s.list_of_process 1 = false ∧
      s.list_of_process 2 = true) ∧ TableOk someLinkage s := by
  obtain ⟨es, s, _, hrun, hq⟩ := exists_run (perform someLinkage) perform_step (fun _ _ _ => id)
    (.initial someLinkage, ())
    [.create shellRequest, .tick (userCpu 0), .create shellRequest, .create shellRequest, .destroy 0,
      .tick (userCpu 4), .create shellRequest, .destroy 1]
    (fun es s _ => decide (es.length = 8 ∧ s.active_process_count = 2 ∧ s.list_of_process 0 = true ∧
      s.list_of_process 1 = false ∧ s.list_of_process 2 = true)) (by decide +kernel)
  exact ⟨es, s, hrun.unrecorded, of_decide_eq_true hq,
    process_table_consistent someLinkage es s hrun.unrecorded⟩

/-! ## The control block that destruction finds -/

/-- `process_destroy` of slot `p` changes no other control block, does not leave that of `p` running, and
passes the page directory of `p` on to be freed. -/
structure ActsOnItsOwn (L : Linkage) (s : Kernel) (p : Fin 16) : Prop where
  returns : ∃ s', process_destroy L s (UInt32.ofNat p) = .ok (true, s')
  others : ∀ s', process_destroy L s (UInt32.ofNat p) = .ok (true, s') →
    ∀ j, j ≠ p → s'.process_list j = s.process_list j
  stopped : ∀ s', process_destroy L s (UInt32.ofNat p) = .ok (true, s') → (s'.process_list p).state ≠ RUNNING
  directory : ∀ i, pcb_with_pid s (UInt32.ofNat p) = some i → s.dirOf i = s.dirOf p

/-- Slot 0 has a directory pointer, or nothing was created so far. -/
def FirstHasDirectory (L : Linkage) (s : Kernel) : Prop :=
  (∃ k, s.dirOf 0 = L.dir k) ∨
    (∀ d, s.paging.page_directory_used d = false) ∧ ∀ i, s.list_of_process i = false

/-- **A step keeps the pointer of slot 0.** The first creation takes slot 0, and no step after it clears the
pointer. -/
theorem firstHasDirectory_step (s : Kernel) (e : Event) (s' : Kernel) (hs : KInv L s)
    (hfirst : FirstHasDirectory L s) (h : KStep L s e s') : FirstHasDirectory L s' := by
  cases e with
  | create r code =>
    rcases create_cases h with ⟨-, rfl⟩ | ⟨-, p, hc⟩ | ⟨-, p, d, hc⟩
    · exact hfirst
    · obtain ⟨-, hdirs, rfl⟩ := hc
      rcases hfirst with ⟨k, hk⟩ | ⟨hunused, -⟩
      · exact .inl ⟨k, by rw [claim_dirOf, hk]⟩
      · exact absurd ((hunused 0).symm.trans (hdirs 0)) (by simp)
    · by_cases hp : p = 0
      · subst hp
        exact .inl ⟨d, hc.dirOf_self⟩
      · rcases hfirst with ⟨k, hk⟩ | ⟨-, hdead⟩
        · exact .inl ⟨k, by rw [hc.dirOf_of_ne (Ne.symm hp), hk]⟩
        · exact absurd (hdead 0) (hc.slot.2 0 (Fin.pos_of_ne_zero hp))
  | destroy pid result =>
    rcases destroy_cases h with ⟨-, rfl⟩ | ⟨-, p, i, -, hd⟩
    · exact hfirst
    · rcases hfirst with ⟨k, hk⟩ | ⟨-, hdead⟩
      · exact .inl ⟨k, by rw [hd.dirOf, hk]⟩
      · have hlive := hd.live
        rw [hdead p] at hlive
        exact absurd hlive (by simp)
  | tick cpu next cpu' =>
    obtain ⟨fuel, h⟩ := h
    have ht := tick_cases h
    rcases hfirst with ⟨k, hk⟩ | ⟨-, hdead⟩
    · exact .inl ⟨k, (ht.dirOf_iff hs 0 k).mpr hk⟩
    · have hlive : s.list_of_process next = true := ht.chosen.1
      rw [hdead next] at hlive
      exact absurd hlive (by simp)

theorem firstHasDirectory_of_run {es : List Event} (h : Run (KStep L) (.initial L) es s) :
    KInv L s ∧ FirstHasDirectory L s :=
  h.invariant (fun s => KInv L s ∧ FirstHasDirectory L s)
    (fun s e t hs hstep => ⟨kinv_step L s e t hs.1 hstep, firstHasDirectory_step s e t hs.1 hs.2 hstep⟩)
    ⟨kinv_initial L, .inr ⟨fun _ => rfl, fun _ => rfl⟩⟩

/-- When the control block found is that of the slot. -/
theorem Destroyed.found_own (h : Destroyed L s s' p i) (hs : KInv L s)
    (hcond : p ≠ 0 ∨ ∀ j, j ≠ 0 → (s.process_list j).pid ≠ 0) : i = p := by
  rcases h.found_cases hs with hi | ⟨rfl, hnever⟩
  · exact hi
  · by_contra hi
    exact hcond.resolve_left (not_not.mpr rfl) i hi hnever.pid

/-- With a control block that was never used, destruction of slot 0 finds that one, which has no directory. -/
theorem Destroyed.found_other (h : Destroyed L s s' 0 i) (hs : KInv L s) (hfirst : FirstHasDirectory L s)
    {j : Fin 16} (hj : j ≠ 0) (hpid : (s.process_list j).pid = 0) : s.dirOf i ≠ s.dirOf 0 := by
  have hi : i ≠ 0 := by
    rintro rfl
    exact h.found.2 j (Fin.pos_of_ne_zero hj) hpid
  rcases h.found_cases hs with h0 | ⟨-, hnever⟩
  · exact absurd h0 hi
  · rcases hfirst with ⟨k, hk⟩ | ⟨-, hdead⟩
    · rw [Kernel.dirOf, hnever.dir, hk]
      exact Junk.ne_dir (.inl rfl) L k
    · have hlive := h.live
      rw [hdead 0] at hlive
      exact absurd hlive (by simp)

/-- **When `process_destroy` takes the right control block**: for every slot but 0, and for slot 0 once every
other slot was used. -/
theorem destroy_acts_on_its_own_iff (L : Linkage) (es : List Event) (s : Kernel)
    (h : Run (KStep L) (.initial L) es s) (p : Fin 16) (hlive : s.list_of_process p = true) :
    ActsOnItsOwn L s p ↔ p ≠ 0 ∨ ∀ j, j ≠ 0 → (s.process_list j).pid ≠ 0 := by
  obtain ⟨hs, hfirst⟩ := firstHasDirectory_of_run h
  obtain ⟨s', i, hdestroy, hd⟩ := destroy_returns L hlive (hs.pid_of_live hlive)
  have hfound : pcb_with_pid s (UInt32.ofNat p) = some i := pcb_with_pid_iff.mpr hd.found
  have hunique : ∀ t, process_destroy L s (UInt32.ofNat p) = .ok (true, t) → t = s' := by
    intro t ht
    rw [hdestroy] at ht
    exact (Prod.mk.inj (Except.ok.inj ht)).2.symm
  constructor
  · intro hacts
    by_contra hcond
    obtain ⟨hp, hnever⟩ := not_or.mp hcond
    obtain rfl := not_not.mp hp
    obtain ⟨j, hj⟩ := not_forall.mp hnever
    obtain ⟨hj0, hpid⟩ := Classical.not_imp.mp hj
    exact hd.found_other hs hfirst hj0 (not_not.mp hpid) (hacts.directory i hfound)
  · intro hcond
    obtain rfl := hd.found_own hs hcond
    refine ⟨⟨s', hdestroy⟩, fun t ht j hj => ?_, fun t ht => ?_, fun k hk => ?_⟩
    · rw [hunique t ht, hd.pcbs, Function.update_of_ne hj]
    · rw [hunique t ht, hd.pcb, if_pos rfl]
      simp
    · rw [Option.some.inj (hfound.symm.trans hk)]

/-- The shell in slot 0 and a second process in slot 1, which is destroyed. -/
theorem destroy_acts_on_its_own_second : ∃ es s, Run (KStep someLinkage) (.initial someLinkage) es s ∧
    ActsOnItsOwn someLinkage s 1 := by
  obtain ⟨es, s, _, hrun, hq⟩ := exists_run (perform someLinkage) perform_step (fun _ _ _ => id)
    (.initial someLinkage, ()) [.create shellRequest, .create shellRequest]
    (fun _ s _ => s.list_of_process 1) (by decide +kernel)
  exact ⟨es, s, hrun.unrecorded,
    (destroy_acts_on_its_own_iff someLinkage es s hrun.unrecorded 1 hq).mpr (.inl (by decide))⟩

/-- The shell runs, and is destroyed: control block 15 is found, the null pointer goes to
`paging_free_page_directory`, and the control block of the shell stays running. -/
theorem destroy_leaves_shell_running : ∃ es s s', Run (KStep someLinkage) (.initial someLinkage) es s ∧
    s.list_of_process 0 = true ∧ process_destroy someLinkage s 0 = .ok (true, s') ∧ pcb_with_pid s 0 = some 15 ∧
    s.dirOf 15 = 0 ∧ (s'.process_list 0).state = RUNNING ∧ ¬ ActsOnItsOwn someLinkage s 0 := by
  obtain ⟨es, s, _, hrun, hq⟩ := exists_run (perform someLinkage) perform_step (fun _ _ _ => id)
    (.initial someLinkage, ()) [.create shellRequest, .tick (userCpu 0)]
    (fun _ s _ =>
      match process_destroy someLinkage s 0 with
      | .ok (result, s') => decide (s.list_of_process 0 = true ∧ result = true ∧ pcb_with_pid s 0 = some 15 ∧
          s.dirOf 15 = 0 ∧ (s'.process_list 0).state = RUNNING)
      | .error _ => false) (by decide +kernel)
  split at hq
  · rename_i result s' hdestroy
    obtain ⟨hlive, rfl, hfound, hdir, hstate⟩ := of_decide_eq_true hq
    exact ⟨es, s, s', hrun.unrecorded, hlive, hdestroy, hfound, hdir, hstate,
      fun h => h.stopped s' hdestroy hstate⟩
  · exact absurd hq (by simp)

end KeropOS
