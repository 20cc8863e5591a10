import KeropOS.Proc.Invariant

/-!
# The order of the scheduler

The record of a run holds the slot chosen at the last tick, and whether its process has been
destroyed since. When it has, no control block is `RUNNING`, and the scheduler starts from slot 0.

* `Turn.next`: the record; `Turns`: what the control blocks say of it;
* **`Ticked.nextAfter`**: the slot a tick chooses;
* **`round_robin`**: the order of the slots chosen, and what follows for a slot that waits.
-/

namespace KeropOS

open PROCESS_STATE RoundRobin Transition

/-! ## The record -/

/-- The slot chosen at the last tick, whether its process was destroyed since, and how many ticks
started again from slot 0 because of that. -/
structure Turn where
  chosen : Option (Fin 16)
  gone : Bool
  restarts : ℕ

def Turn.initial : Turn := ⟨none, false, 0⟩

def Turn.next (_ : Kernel) (e : Event) (_ : Kernel) (t : Turn) : Turn :=
  match e with
  | .create _ _ | .destroy _ false => t
  | .destroy pid true => { t with gone := t.gone || decide (∃ p ∈ t.chosen, UInt32.ofNat p.val = pid) }
  | .tick _ next _ =>
    { chosen := some next
      gone := false
      restarts := if t.gone = true ∧ t.chosen ≠ some 0 then t.restarts + 1 else t.restarts }

/-- The slot the scheduler goes on from, when it chose `p` last. -/
def Turn.start (t : Turn) (p : Fin 16) : Fin 16 := if t.gone = true then 0 else p

/-- The process chosen last runs until it is destroyed; then at most slot 0 is `RUNNING`. -/
structure Turns (s : Kernel) (t : Turn) : Prop where
  live : ∀ {p}, t.chosen = some p → t.gone = false → s.list_of_process p = true
  running : ∀ {p}, t.chosen = some p → t.gone = false → (s.process_list p).state = RUNNING
  gone : t.gone = true → ∀ {i}, (s.process_list i).state = RUNNING → i = 0

theorem turns_initial (L : Linkage) : Turns (.initial L) .initial where
  live h := absurd h (by simp [Turn.initial])
  running h := absurd h (by simp [Turn.initial])
  gone h := absurd h (by simp [Turn.initial])

section

variable {L : Linkage} {s s' : Kernel} {t : Turn} {r : ProcessRequest} {p q i : Fin 16} {d : Fin 32}

theorem Created.turns (hc : Created L s s' r q d) (ht : Turns s t) : Turns s' t := by
  have hne : ∀ {i}, s.list_of_process i = true → i ≠ q := fun hlive => ne_of_live hlive hc.slot.1
  refine ⟨fun hp hg => ?_, fun hp hg => ?_, fun hg i hi => ?_⟩
  · rw [hc.list_of_ne (hne (ht.live hp hg))]
    exact ht.live hp hg
  · rw [hc.pcb_of_ne (hne (ht.live hp hg))]
    exact ht.running hp hg
  · rw [hc.pcb_of_ne (hc.ne_of_running hi)] at hi
    exact ht.gone hg hi

theorem Claimed.turns (hc : Claimed s s' q) (ht : Turns s t) : Turns s' t := by
  obtain ⟨-, -, rfl⟩ := hc
  refine ⟨fun hp hg => ?_, fun hp hg => ?_, fun hg i hi => ?_⟩
  · simp only [claim, Function.update_apply, ht.live hp hg, ite_self]
  · rw [claim_state]
    exact ht.running hp hg
  · rw [claim_state] at hi
    exact ht.gone hg hi

/-- **Destruction of the process chosen last leaves at most slot 0 `RUNNING`.** -/
theorem Destroyed.turns (hd : Destroyed L s s' q i) (hs : KInv L s) (ht : Turns s t) :
    Turns s' (Turn.next s (.destroy (UInt32.ofNat q) true) s' t) := by
  have hgone : ∀ {p}, t.chosen = some p →
      ((Turn.next s (.destroy (UInt32.ofNat q) true) s' t).gone = false ↔ t.gone = false ∧ p ≠ q) := by
    intro p hp
    have : (∃ p ∈ t.chosen, UInt32.ofNat p.val = UInt32.ofNat q.val) ↔ p = q := by
      constructor
      · rintro ⟨p', hp', h⟩
        obtain rfl := Option.some.inj (hp.symm.trans hp')
        exact ofNat_injective p q h
      · rintro rfl
        exact ⟨p, hp, rfl⟩
    simp only [Turn.next, Bool.or_eq_false_iff, decide_eq_false_iff_not, this, ne_eq]
  have hrunning : ∀ {j}, (s'.process_list j).state = RUNNING → (s.process_list j).state = RUNNING ∧
      j ≠ i := by
    intro j hj
    rw [hd.pcb] at hj
    simp only at hj
    split_ifs at hj with hji
    exact ⟨hj, hji⟩
  refine ⟨fun {p} hp hg => ?_, fun {p} hp hg => ?_, fun hg j hj => ?_⟩
  · obtain ⟨hg, hpq⟩ := (hgone hp).mp hg
    rw [hd.list, Function.update_of_ne hpq]
    exact ht.live hp hg
  · obtain ⟨hg, hpq⟩ := (hgone hp).mp hg
    have hrun := ht.running hp hg
    rw [hd.pcb, if_neg (hd.ne_found hs hrun hpq), hrun]
  · obtain ⟨hj, hji⟩ := hrunning hj
    rcases hg' : t.gone with _ | _
    · -- it was the process chosen last that was destroyed
      obtain ⟨p, hp, hpq⟩ : ∃ p ∈ t.chosen, UInt32.ofNat p.val = UInt32.ofNat q.val := by
        simpa only [Turn.next, hg', Bool.false_or, decide_eq_true_eq] using hg
      obtain rfl := ofNat_injective p q hpq
      obtain rfl := hs.one hj (ht.running hp hg')
      rcases hd.found_cases hs with rfl | ⟨h0, -⟩
      · exact absurd rfl hji
      · exact h0
    · exact ht.gone hg' hj

variable {cpu cpu' : Cpu} {next : Fin 16}

theorem Ticked.turns (h : Ticked L s s' cpu next cpu') (hs : KInv L s) :
    Turns s' (Turn.next s (.tick cpu next cpu') s' t) where
  live {p} hp _ := by
    obtain rfl := Option.some.inj (show some next = some p from hp)
    rw [h.list]
    exact h.chosen.1
  running {p} hp _ := by
    obtain rfl := Option.some.inj (show some next = some p from hp)
    exact (h.running_iff hs).mpr rfl
  gone hg := absurd hg (by simp [Turn.next])

/-- **The slot a tick chooses** is the first live one after the slot chosen last, or after slot 0. -/
theorem Ticked.nextAfter (h : Ticked L s s' cpu next cpu') (hs : KInv L s) (ht : Turns s t)
    (hp : t.chosen = some p) : NextAfter (fun i => s.list_of_process i = true) (t.start p) next := by
  have hchosen := h.chosen
  rcases hg : t.gone with _ | _
  · have hstart : t.start p = p := by
      rw [Turn.start, hg, if_neg (by simp)]
    rw [currentSlot_of_running hs (ht.running hp hg), hs.pid_of_live (ht.live hp hg), wrap_pid] at hchosen
    rw [hstart]
    exact hchosen
  · have hstart : t.start p = 0 := by
      rw [Turn.start, hg, if_pos rfl]
    have hcur : currentSlot s = 0 := by
      rw [currentSlot]
      rcases hr : process_get_current_running_pcb_pointer s with _ | i
      · rfl
      · exact ht.gone hg (running_eq_some.mp hr).1
    have hpid : (s.process_list 0).pid = UInt32.ofNat (0 : Fin 16).val := by
      rcases hs.pid 0 with h0 | hn
      · exact h0
      · exact hn.pid
    rw [hcur, hpid, wrap_pid] at hchosen
    rw [hstart]
    exact hchosen

end

/-- **A step keeps the control blocks in line with the turn.** -/
theorem turns_step {L : Linkage} {s s' : Kernel} {e : Event} {t : Turn} (hs : KInv L s) (ht : Turns s t)
    (h : KStep L s e s') : Turns s' (Turn.next s e s' t) := by
  cases e with
  | create r code =>
    rcases create_cases h with ⟨-, rfl⟩ | ⟨-, p, hc⟩ | ⟨-, p, d, hc⟩
    · exact ht
    · exact hc.turns ht
    · exact hc.turns ht
  | destroy pid result =>
    rcases destroy_cases h with ⟨rfl, rfl⟩ | ⟨rfl, p, i, rfl, hd⟩
    · exact ht
    · exact hd.turns hs ht
  | tick cpu next cpu' =>
    obtain ⟨fuel, h⟩ := h
    exact (tick_cases h).turns hs

/-! ## Waiting -/

/-- The record never forgets a restart. -/
theorem restarts_mono (s : Kernel) (e : Event) (s' : Kernel) (t : Turn) :
    t.restarts ≤ (Turn.next s e s' t).restarts := by
  cases e with
  | create r code => exact le_rfl
  | destroy pid result => cases result <;> exact le_rfl
  | tick cpu next cpu' =>
    simp only [Turn.next]
    split_ifs
    · exact Nat.le_succ _
    · exact le_rfl

/-- A tick without a restart goes on from the slot chosen last. -/
theorem start_of_restarts_eq {s s' : Kernel} {t : Turn} {p next : Fin 16} {cpu cpu' : Cpu}
    (hp : t.chosen = some p) (h : (Turn.next s (.tick cpu next cpu') s' t).restarts = t.restarts) :
    t.start p = p := by
  rw [Turn.start]
  split_ifs with hg
  · by_contra h0
    have : t.chosen ≠ some 0 := fun h => h0 (Option.some.inj (hp.symm.trans h)).symm
    simp only [Turn.next, hg, this, ne_eq, not_false_eq_true, and_self, if_true] at h
    omega
  · rfl

/-- Slot `r` waits, and since slot `p` was chosen it has come no further away, unless there was a
restart. -/
structure Waits (L : Linkage) (r p : Fin 16) (restarts : ℕ) (x : Kernel × Turn) : Prop where
  kinv : KInv L x.1
  turns : Turns x.1 x.2
  live : x.1.list_of_process r = true
  restarts_le : restarts ≤ x.2.restarts
  closer : x.2.restarts = restarts → ∃ q, x.2.chosen = some q ∧ (r - (q + 1)).val ≤ (r - (p + 1)).val

/-- What a tick does to a slot that waits. -/
theorem Waits.tick {L : Linkage} {r p : Fin 16} {n : ℕ} {s s' : Kernel} {t : Turn} {cpu cpu' : Cpu}
    {next : Fin 16} (h : Waits L r p n (s, t)) (ht : Ticked L s s' cpu next cpu')
    (hn : (Turn.next s (.tick cpu next cpu') s' t).restarts = n) (hr : r ≠ next) :
    (r - (next + 1)).val < (r - (p + 1)).val := by
  have heq : t.restarts = n := le_antisymm (hn ▸ restarts_mono s _ s' t) h.restarts_le
  obtain ⟨q, hq, hle⟩ := h.closer heq
  have hnext := ht.nextAfter h.kinv h.turns hq
  rw [start_of_restarts_eq hq (hn.trans heq.symm)] at hnext
  exact lt_of_lt_of_le (hnext.closer h.live hr) hle

theorem Waits.step {L : Linkage} {r p : Fin 16} {n : ℕ} {x y : Kernel × Turn} {e : Event}
    (h : Waits L r p n x) (hstep : recorded (KStep L) Turn.next x e y)
    (he : e ≠ .destroy (UInt32.ofNat r) true) (hr : ∀ cpu cpu', e ≠ .tick cpu r cpu') : Waits L r p n y := by
  obtain ⟨s, t⟩ := x
  obtain ⟨s', t'⟩ := y
  obtain ⟨hk, rfl⟩ : KStep L s e s' ∧ t' = Turn.next s e s' t := hstep
  refine ⟨kinv_step L s e s' h.kinv hk, turns_step h.kinv h.turns hk, (stays_live h.kinv h.live he hk).1,
    h.restarts_le.trans (restarts_mono s e s' t), fun hn => ?_⟩
  cases e with
  | create r code => exact h.closer hn
  | destroy pid result => cases result <;> exact h.closer hn
  | tick cpu next cpu' =>
    obtain ⟨fuel, hk⟩ := hk
    exact ⟨next, rfl, (h.tick (tick_cases hk) hn fun hrn => hr cpu cpu' (by rw [hrn])).le⟩

/-! ## The result -/

/-- **Round robin.** In every run, a tick chooses the first live slot strictly after the slot chosen
at the tick before, or after slot 0 when the process of that slot has been destroyed since. Between
two choices of one slot without such a restart, every slot that stays live is chosen. -/
theorem round_robin (L : Linkage) (es : List Event) (s : Kernel) (t : Turn) (p : Fin 16)
    (hrun : Run (recorded (KStep L) Turn.next) (.initial L, .initial) es (s, t)) (hp : t.chosen = some p) :
    (∀ cpu next cpu' s', KStep L s (.tick cpu next cpu') s' →
      NextAfter (fun i => s.list_of_process i = true) (if t.gone = true then 0 else p) next) ∧
    ∀ es' s₁ t₁ cpu cpu' s₂, Run (recorded (KStep L) Turn.next) (s, t) es' (s₁, t₁) →
      KStep L s₁ (.tick cpu p cpu') s₂ →
      (Turn.next s₁ (.tick cpu p cpu') s₂ t₁).restarts = t.restarts →
      ∀ r, s.list_of_process r = true → .destroy (UInt32.ofNat r) true ∉ es' →
        r = p ∨ ∃ cpu cpu', .tick cpu r cpu' ∈ es' := by
  obtain ⟨hs, ht⟩ := hrun.invariant_recorded (KInv L) Turns (kinv_step L)
    (fun _ _ _ _ => turns_step) (kinv_initial L) (turns_initial L)
  refine ⟨fun cpu next cpu' s' hstep => ?_, fun es' s₁ t₁ cpu cpu' s₂ hrun' hstep hn r hr hstay => ?_⟩
  · obtain ⟨fuel, hstep⟩ := hstep
    exact (tick_cases hstep).nextAfter hs ht hp
  · by_contra hnone
    obtain ⟨hne, hnever⟩ := not_or.mp hnone
    have hwaits : Waits L r p t.restarts (s₁, t₁) := hrun'.invariant_mem (Waits L r p t.restarts)
      (fun x y e he hx hxy => hx.step hxy (fun h => hstay (h ▸ he))
        fun cpu cpu' h => hnever ⟨cpu, cpu', h ▸ he⟩)
      ⟨hs, ht, hr, le_rfl, fun _ => ⟨p, hp, le_rfl⟩⟩
    obtain ⟨fuel, hstep⟩ := hstep
    exact absurd (hwaits.tick (tick_cases hstep) hn hne) (lt_irrefl _)

/-- Three processes in turn: between two choices of slot 1, slots 2 and 0 are chosen. -/
theorem round_robin_three : ∃ es s t es' s₁ t₁ s₂ cpu',
    Run (recorded (KStep someLinkage) Turn.next) (.initial someLinkage, .initial) es (s, t) ∧
    t.chosen = some 1 ∧
    Run (recorded (KStep someLinkage) Turn.next) (s, t) es' (s₁, t₁) ∧
    KStep someLinkage s₁ (.tick (userCpu 0) 1 cpu') s₂ ∧ ∃ cpu cpu', .tick cpu 2 cpu' ∈ es' := by
  obtain ⟨es, s, t, hrun, hq⟩ := exists_run (perform someLinkage) perform_step Turn.next
    (.initial someLinkage, .initial)
    [.create shellRequest, .create shellRequest, .create shellRequest, .tick (userCpu 0)]
    (fun _ s t => decide (t.chosen = some 1 ∧ s.list_of_process 2 = true) &&
      match execute (perform someLinkage) Turn.next (s, t) [.tick (userCpu 4), .tick (userCpu 8)] with
      | .ok (es', s₁, t₁) => es'.all Event.isTick &&
        match timer_interrupt someLinkage 16 s₁ (userCpu 0) with
        | .ok (next, s₂, cpu') => decide (next = 1 ∧
            (Turn.next s₁ (.tick (userCpu 0) next cpu') s₂ t₁).restarts = t.restarts)
        | .error _ => false
      | .error _ => false) (by decide +kernel)
  rw [Bool.and_eq_true, decide_eq_true_eq] at hq
  obtain ⟨⟨hp, hlive⟩, hq⟩ := hq
  split at hq
  · rename_i es' s₁ t₁ hexec
    rw [Bool.and_eq_true] at hq
    obtain ⟨hticks, hq⟩ := hq
    split at hq
    · rename_i next s₂ cpu' htick
      obtain ⟨rfl, hn⟩ := of_decide_eq_true hq
      have hstay : .destroy (UInt32.ofNat (2 : Fin 16).val) true ∉ es' := fun h =>
        absurd (List.all_eq_true.mp hticks _ h) (by simp [Event.isTick])
      have hrun' := execute_run hexec perform_step
      have hstep : KStep someLinkage s₁ (.tick (userCpu 0) 1 cpu') s₂ := ⟨16, htick⟩
      refine ⟨es, s, t, es', s₁, t₁, s₂, cpu', hrun, hp, hrun', hstep, ?_⟩
      exact ((round_robin someLinkage es s t 1 hrun hp).2 es' s₁ t₁ _ _ s₂ hrun' hstep hn 2 hlive
        hstay).resolve_left (by decide)
    · exact absurd hq (by simp)
  · exact absurd hq (by simp)

/-- Slots 0, 1 and 2 are live, and the process in slot 2, chosen last, destroys itself: the next tick
chooses slot 1, and slot 0 comes first after slot 2. -/
theorem next_after_exit : ∃ es s t s' cpu',
    Run (recorded (KStep someLinkage) Turn.next) (.initial someLinkage, .initial) es (s, t) ∧
    t.chosen = some 2 ∧ KStep someLinkage s (.tick (userCpu 0) 1 cpu') s' ∧
    ¬ NextAfter (fun i => s.list_of_process i = true) 2 1 ∧
    NextAfter (fun i => s.list_of_process i = true) 2 0 := by
  obtain ⟨es, s, t, hrun, hq⟩ := exists_run (perform someLinkage) perform_step Turn.next
    (.initial someLinkage, .initial)
    [.create shellRequest, .create shellRequest, .create shellRequest, .tick (userCpu 0), .tick (userCpu 4),
      .destroy 2]
    (fun _ s t => decide (t.chosen = some 2 ∧ ¬ NextAfter (fun i => s.list_of_process i = true) 2 1 ∧
        NextAfter (fun i => s.list_of_process i = true) 2 0) &&
      match timer_interrupt someLinkage 16 s (userCpu 0) with
      | .ok (next, _, _) => decide (next = 1)
      | .error _ => false) (by decide +kernel)
  rw [Bool.and_eq_true, decide_eq_true_eq] at hq
  obtain ⟨⟨hp, hnot, hafter⟩, hq⟩ := hq
  split at hq
  · rename_i next s' cpu' htick
    obtain rfl := of_decide_eq_true hq
    exact ⟨es, s, t, s', cpu', hrun, hp, ⟨16, htick⟩, hnot, hafter⟩
  · exact absurd hq (by simp)

end KeropOS
