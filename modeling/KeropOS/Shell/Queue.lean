import KeropOS.Lib.Ring
import KeropOS.Shell.Find

/-!
# The queue of `find`

`createQueue`, `enqueue`, `dequeue` and `isEmpty` of `user-shell.c`, with the array as it lies in memory.

* `FileInfo`, `Queue`, the four functions;
* `terminated`: what `enqueue` keeps of an element; `enqueue_eq`, `dequeue_eq`: the functions on a ring;
* `Call`, `run`: calls after `createQueue`; `Call.spec`, `specRun`: the same on a list of at most 20;
* `Refines`; **`queue_refines`**: the queue is that list, but for the last byte of a name;
* **`enqueue_view`**, **`dequeue_view`**: the ring that `find` works with is this queue.

An access to `items` behind its end, or before its start, ends the calls with `Trap.outOfBounds`.
-/

namespace KeropOS

open Packed Rings

namespace Bfs

/-! ## The code -/

structure FileInfo where
  filename : Bytes 9
  cluster_number : UInt32
  parent_cluster_number : UInt32
  clusterpathing : Fin 16 → UInt32
  neff : UInt32

/-- `items`, `front` and `rear`. -/
abbrev Queue := Ring FileInfo 20

/-- The place of `items[i]`. -/
def place (i : ℤ) : Except Trap (Fin 20) :=
  if h : 0 ≤ i ∧ i < 20 then .ok ⟨i.toNat, by omega⟩ else .error .outOfBounds

def createQueue (queue : Queue) : Queue := { queue with front := -1, rear := -1 }

/-- The copy that `enqueue` and `dequeue` make, field by field; they end the name. -/
def terminated (value : FileInfo) : FileInfo where
  filename := Function.update value.filename 8 0
  cluster_number := value.cluster_number
  parent_cluster_number := value.parent_cluster_number
  clusterpathing := value.clusterpathing
  neff := value.neff

def enqueue (queue : Queue) (value : FileInfo) : Except Trap Queue :=
  if (queue.rear + 1).tmod 20 = queue.front then .ok queue
  else
    match place ((queue.rear + 1).tmod 20) with
    | .error t => .error t
    | .ok i =>
      .ok
        { items := Function.update queue.items i (terminated value)
          front := if queue.front = -1 then 0 else queue.front
          rear := (queue.rear + 1).tmod 20 }

/-- `dequeue`; `item` is its local variable, not initialised. -/
def dequeue (item : FileInfo) (queue : Queue) : Except Trap (FileInfo × Queue) :=
  if queue.front = -1 then
    .ok ({ item with filename := 0, cluster_number := 0, parent_cluster_number := 0 }, queue)
  else
    match place queue.front with
    | .error t => .error t
    | .ok i =>
      .ok (terminated (queue.items i),
        if queue.front = queue.rear then { queue with front := -1, rear := -1 }
        else { queue with front := (queue.front + 1).tmod 20 })

def isEmpty (queue : Queue) : Bool := queue.front = -1

/-! ## Calls -/

inductive Call
  | enqueue (value : FileInfo)
  | dequeue (item : FileInfo)
  | isEmpty

inductive Reply
  | done
  | item (item : FileInfo)
  | flag (empty : Bool)

def Call.exec (queue : Queue) : Call → Except Trap (Reply × Queue)
  | .enqueue value =>
    match Bfs.enqueue queue value with
    | .error t => .error t
    | .ok queue => .ok (.done, queue)
  | .dequeue item =>
    match Bfs.dequeue item queue with
    | .error t => .error t
    | .ok (item, queue) => .ok (.item item, queue)
  | .isEmpty => .ok (.flag (Bfs.isEmpty queue), queue)

/-- Calls one after the other, with their replies. -/
def run : Queue → List Call → Except Trap (List Reply × Queue)
  | queue, [] => .ok ([], queue)
  | queue, call :: calls =>
    match call.exec queue with
    | .error t => .error t
    | .ok (reply, queue) =>
      match run queue calls with
      | .error t => .error t
      | .ok (replies, queue) => .ok (reply :: replies, queue)

/-! ## The list -/

/-- What a call does to the list, when `kept` is what is kept of an element. -/
def Call.spec (kept : FileInfo → FileInfo) (queue : Fifo FileInfo 20) : Call → Reply × Fifo FileInfo 20
  | .enqueue value => (.done, queue.enqueue (kept value))
  | .dequeue item =>
    (.item (queue.waiting.headD { item with filename := 0, cluster_number := 0, parent_cluster_number := 0 }),
      queue.rest)
  | .isEmpty => (.flag queue.waiting.isEmpty, queue)

def specRun (kept : FileInfo → FileInfo) : Fifo FileInfo 20 → List Call → List Reply × Fifo FileInfo 20
  | queue, [] => ([], queue)
  | queue, call :: calls =>
    let rest := specRun kept (call.spec kept queue).2 calls
    ((call.spec kept queue).1 :: rest.1, rest.2)

/-- After `createQueue`, whatever is in memory, and any calls, the replies are those of the list; `isEmpty`
tells whether it is empty, `enqueue` changes nothing when it is full, and `front` and `rear` are both -1 or
both indices of `items`. -/
def Refines (kept : FileInfo → FileInfo) : Prop :=
  ∀ (memory : Queue) (calls : List Call), ∃ queue,
    run (createQueue memory) calls = .ok ((specRun kept .empty calls).1, queue) ∧
      (isEmpty queue = true ↔ (specRun kept .empty calls).2.waiting = []) ∧
      ((specRun kept .empty calls).2.waiting.length = 20 → ∀ value, enqueue queue value = .ok queue) ∧
      (queue.front = -1 ∧ queue.rear = -1 ∨
        (0 ≤ queue.front ∧ queue.front < 20) ∧ 0 ≤ queue.rear ∧ queue.rear < 20)

/-! ## The functions on a ring -/

section

variable {queue : Queue} {value item : FileInfo} {waiting : List FileInfo}

theorem terminated_terminated : terminated (terminated value) = terminated value := by
  unfold terminated
  simp only [Function.update_idem]

theorem place_eq {i : ℤ} (h : 0 ≤ i ∧ i < 20) : place i = .ok (Ring.cellAt i) := by
  unfold place
  rw [dif_pos h]
  apply congrArg Except.ok
  apply Fin.ext
  exact (Nat.mod_eq_of_lt (by omega : i.toNat < 20)).symm

theorem enqueue_eq (h : -1 ≤ queue.rear) :
    enqueue queue value = .ok (Ring.enqueue queue (terminated value)) := by
  have hmod : (queue.rear + 1).tmod 20 = (queue.rear + 1) % (20 : ℕ) := Int.tmod_eq_emod_of_nonneg (by omega)
  have hplace := place_eq (i := (queue.rear + 1) % (20 : ℕ)) (by omega)
  unfold enqueue Ring.enqueue
  rw [hmod, hplace]
  split_ifs <;> rfl

theorem dequeue_eq (h : 0 ≤ queue.front ∧ queue.front < 20) : ∃ rest,
    Ring.dequeue queue = some (queue.items (Ring.cellAt queue.front), rest) ∧
      dequeue item queue = .ok (terminated (queue.items (Ring.cellAt queue.front)), rest) := by
  have hmod : (queue.front + 1).tmod 20 = (queue.front + 1) % (20 : ℕ) :=
    Int.tmod_eq_emod_of_nonneg (by omega)
  have hfront : ¬ queue.front = -1 := by omega
  unfold dequeue Ring.dequeue
  rw [if_neg hfront, if_neg hfront, place_eq h, hmod]
  exact ⟨_, rfl, rfl⟩

end

/-! ## The refinement -/

/-- The ring holds the list, whose elements are all as `enqueue` keeps them. -/
structure Represents (queue : Queue) (fifo : Fifo FileInfo 20) : Prop where
  holds : queue.Holds fifo.waiting
  kept : ∀ value ∈ fifo.waiting, terminated value = value

section

variable {queue : Queue} {fifo : Fifo FileInfo 20} {a : FileInfo} {rest : List FileInfo}

theorem Represents.create (memory : Queue) : Represents (createQueue memory) .empty :=
  ⟨Ring.Holds.create memory.items, fun _ h => absurd h List.not_mem_nil⟩

theorem Represents.enqueue (h : Represents queue fifo) (value : FileInfo) : ∃ queue',
    Bfs.enqueue queue value = .ok queue' ∧ Represents queue' (fifo.enqueue (terminated value)) ∧
      (fifo.waiting.length = 20 → queue' = queue) := by
  have hrear : -1 ≤ queue.rear := by
    have := h.holds.indices
    omega
  refine ⟨_, enqueue_eq hrear, ?_, fun hfull => ?_⟩
  · unfold Fifo.enqueue
    split_ifs with hroom
    · refine ⟨h.holds.enqueue hroom, fun v hv => ?_⟩
      rcases List.mem_append.mp hv with hv | hv
      · exact h.kept v hv
      · rw [List.mem_singleton.mp hv, terminated_terminated]
    · have hfull : fifo.waiting.length = 20 := le_antisymm fifo.le (not_lt.mp hroom)
      have hsame : Ring.enqueue queue (terminated value) = queue := if_pos (h.holds.full.mpr hfull)
      rwa [hsame]
  · exact if_pos (h.holds.full.mpr hfull)

/-- The first element leaves, as it leaves the ring. -/
theorem Represents.oldest (h : Represents queue fifo) (item : FileInfo)
    (hcons : fifo.waiting = a :: rest) : ∃ queue', Bfs.dequeue item queue = .ok (a, queue') ∧
      Ring.dequeue queue = some (a, queue') ∧ queue'.Holds rest := by
  have hindices := h.holds.indices
  have hne : ¬ queue.front = -1 := fun he =>
    absurd (hcons.symm.trans (h.holds.front_iff.mp he)) (List.cons_ne_nil _ _)
  obtain ⟨queue', hring, hholds⟩ := Ring.Holds.dequeue (hcons ▸ h.holds)
  obtain ⟨_, hfirst, hdequeue⟩ := @dequeue_eq queue item (by omega)
  rw [hring, Option.some.injEq, Prod.mk.injEq] at hfirst
  obtain ⟨ha, rfl⟩ := hfirst
  rw [← ha, h.kept a (hcons ▸ List.mem_cons_self ..)] at hdequeue
  exact ⟨queue', hdequeue, hring, hholds⟩

theorem Represents.dequeue (h : Represents queue fifo) (item : FileInfo) : ∃ queue',
    Bfs.dequeue item queue = .ok (fifo.waiting.headD
      { item with filename := 0, cluster_number := 0, parent_cluster_number := 0 }, queue') ∧
      Represents queue' fifo.rest := by
  obtain ⟨waiting, hle⟩ := fifo
  cases waiting with
  | nil => exact ⟨queue, if_pos (h.holds.front_iff.mpr rfl), h.holds, h.kept⟩
  | cons a rest =>
    obtain ⟨queue', hcall, -, hholds⟩ := h.oldest item rfl
    exact ⟨queue', hcall, hholds, fun v hv => h.kept v (List.mem_cons_of_mem _ hv)⟩

/-- What one call does. -/
theorem Represents.exec (h : Represents queue fifo) (call : Call) : ∃ queue',
    call.exec queue = .ok ((call.spec terminated fifo).1, queue') ∧
      Represents queue' (call.spec terminated fifo).2 := by
  cases call with
  | enqueue value =>
    obtain ⟨queue', hcall, hrep, -⟩ := h.enqueue value
    exact ⟨queue', by simp only [Call.exec, hcall, Call.spec], hrep⟩
  | dequeue item =>
    obtain ⟨queue', hcall, hrep⟩ := h.dequeue item
    exact ⟨queue', by simp only [Call.exec, hcall, Call.spec], hrep⟩
  | isEmpty =>
    have hflag : Bfs.isEmpty queue = fifo.waiting.isEmpty := by
      unfold Bfs.isEmpty
      rw [Bool.eq_iff_iff, decide_eq_true_iff, List.isEmpty_iff]
      exact h.holds.front_iff
    exact ⟨queue, by simp only [Call.exec, hflag, Call.spec], h⟩

/-- What a run of calls does. -/
theorem Represents.run (h : Represents queue fifo) (calls : List Call) : ∃ queue',
    Bfs.run queue calls = .ok ((specRun terminated fifo calls).1, queue') ∧
      Represents queue' (specRun terminated fifo calls).2 := by
  induction calls generalizing queue fifo with
  | nil => exact ⟨queue, rfl, h⟩
  | cons call calls ih =>
    obtain ⟨queue₁, hcall, h₁⟩ := h.exec call
    obtain ⟨queue₂, hrest, h₂⟩ := ih h₁
    exact ⟨queue₂, by simp only [Bfs.run, hcall, hrest, specRun], h₂⟩

end

/-- **The queue is a list of at most 20 elements**, each kept with a zero in the last byte of its name. -/
theorem queue_refines : Refines terminated := by
  intro memory calls
  obtain ⟨queue, hrun, h⟩ := (Represents.create memory).run calls
  refine ⟨queue, hrun, ?_, fun hfull value => ?_, h.holds.indices⟩
  · exact decide_eq_true_iff.trans h.holds.front_iff
  · obtain ⟨queue', hcall, -, hsame⟩ := h.enqueue value
    rw [hcall, hsame hfull]

/-- A name of nine characters. -/
def longName : FileInfo := ⟨fun _ => 97, 2, 2, 0, 0⟩

/-- The last byte of the name in a reply. -/
def Reply.lastByte : Reply → Option UInt8
  | .item info => some (info.filename 8)
  | _ => none

/-- It does not come back. -/
theorem long_name_cut : ¬ Refines id := by
  intro h
  obtain ⟨queue, hrun, -⟩ := h ⟨fun _ => longName, 0, 0⟩ [.enqueue longName, .dequeue longName]
  obtain ⟨queue', hrun', -⟩ := (Represents.create ⟨fun _ => longName, 0, 0⟩).run
    [.enqueue longName, .dequeue longName]
  rw [hrun', Except.ok.injEq, Prod.mk.injEq] at hrun
  have hbytes := congrArg (List.map Reply.lastByte) hrun.1
  exact absurd hbytes (by decide)

/-! ## The queue in `find` -/

section

variable {queue : Queue} {fifo : Fifo FileInfo 20}

/-- An element as `find` takes it: its name is the string in `filename`. -/
def FileInfo.view (info : FileInfo) : KeropOS.FileInfo where
  filename := (List.ofFn info.filename).takeWhile (· ≠ 0)
  cluster_number := info.cluster_number
  parent_cluster_number := info.parent_cluster_number
  clusterpathing := info.clusterpathing
  neff := info.neff.toNat

/-- The end that is put on a string does not change it. -/
theorem view_terminated {info : FileInfo} (h : 0 ∈ List.ofFn info.filename) :
    (terminated info).view = info.view := by
  by_cases hlast : info.filename 8 = 0
  · have hsame : terminated info = info := by
      unfold terminated
      rw [← hlast, Function.update_eq_self]
    rw [hsame]
  · have hsplit : ∀ f : Bytes 9, List.ofFn f = List.ofFn (fun i : Fin 8 => f i.castSucc) ++ [f 8] := fun f =>
      (List.ofFn_succ' f).trans (List.concat_eq_append ..)
    have hfront : (fun i : Fin 8 => (terminated info).filename i.castSucc) =
        fun i : Fin 8 => info.filename i.castSucc := by
      funext i
      exact Function.update_of_ne (Fin.castSucc_lt_last i).ne _ _
    have hzero : 0 ∈ List.ofFn fun i : Fin 8 => info.filename i.castSucc := by
      rw [hsplit, List.mem_append] at h
      exact h.resolve_right fun he => hlast (List.mem_singleton.mp he).symm
    obtain ⟨w, rest, hw, h0⟩ := List.eq_append_cons_of_mem hzero
    have hall : ∀ c ∈ w, decide (c ≠ 0) = true := fun c hc => decide_eq_true fun he => h0 (he ▸ hc)
    have hname : ∀ x : UInt8, (w ++ 0 :: rest ++ [x]).takeWhile (· ≠ 0) = w := by
      intro x
      rw [List.append_assoc, List.takeWhile_append_of_pos hall, List.cons_append,
        List.takeWhile_cons_of_neg (by simp), List.append_nil]
    have htext : (List.ofFn (terminated info).filename).takeWhile (· ≠ 0) =
        (List.ofFn info.filename).takeWhile (· ≠ 0) := by
      rw [hsplit, hsplit info.filename, hfront, hw, hname, hname]
    unfold FileInfo.view
    rw [htext]
    rfl

/-- **The queue in `find` is this one**: `enqueue` of an element whose name is a string. -/
theorem Represents.enqueue_view (h : Represents queue fifo) {value : FileInfo}
    (hname : 0 ∈ List.ofFn value.filename) : ∃ queue', Bfs.enqueue queue value = .ok queue' ∧
      queue'.map FileInfo.view = Ring.enqueue (queue.map FileInfo.view) value.view := by
  have hrear : -1 ≤ queue.rear := by
    have := h.holds.indices
    omega
  exact ⟨_, enqueue_eq hrear, by rw [Ring.map_enqueue, view_terminated hname]⟩

/-- `dequeue`, when there is an element. -/
theorem Represents.dequeue_view (h : Represents queue fifo) (item : FileInfo)
    (hne : Bfs.isEmpty queue = false) : ∃ info queue', Bfs.dequeue item queue = .ok (info, queue') ∧
      Ring.dequeue (queue.map FileInfo.view) = some (info.view, queue'.map FileInfo.view) := by
  have hwaiting : fifo.waiting ≠ [] := fun he => by
    rw [Bfs.isEmpty, h.holds.front_iff.mpr he] at hne
    exact absurd hne (by decide)
  obtain ⟨info, rest, hcons⟩ := List.exists_cons_of_ne_nil hwaiting
  obtain ⟨queue', hcall, hring, -⟩ := h.oldest item hcons
  exact ⟨info, queue', hcall, by rw [Ring.map_dequeue, hring, Option.map_some]⟩

end

end Bfs

end KeropOS
