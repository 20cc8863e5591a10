import KeropOS.Fat.PowerCycle
import KeropOS.Shell.Files

/-!
# Sessions

The shell keeps its stack of directories from command to command, while its own commands and other programs
change the files.

* `SessionStep`: a call of the driver, or a `cd`;
* `KeepsStack`: no folder on the stack is deleted, and `cd` goes to the folder it is asked for;
* `TidyStep`: such a step with a call that the file map follows;
* **`call_valid_iff`**, **`cd_valid_iff`**: what one step does to the stack;
* **`session_stack_iff`**: the stack stays valid in every session of such steps, and in no other.
-/

namespace KeropOS

open Packed Transition Trails

/-! ## Steps -/

/-- What happens in a session. -/
inductive SessionEvent
  | call (event : Call × Reply)
  | cd (dirname : Buffer)

/-- The calls among the events. -/
def SessionEvent.call? : SessionEvent → Option (Call × Reply)
  | .call event => some event
  | .cd _ => none

/-- A call of the driver, by the shell or by another program, or a `cd`. -/
def SessionStep (x : Fs × DirStack) : SessionEvent → Fs × DirStack → Prop
  | .call event, y => Step x.1 event y.1 ∧ y.2 = x.2
  | .cd dirname, y => y.1 = x.1 ∧ Cd x.1 x.2 dirname y.2

/-- The request is for a folder on the stack. -/
def OnStack (st : DirStack) (r : FAT32DriverRequest) : Prop :=
  ∃ j k : Fin 16, j.val + 1 = k.val ∧ k.val < st.dir_stack_index ∧
    r.parent_cluster_number = st.dir_stack j ∧ r.name = st.dir_name_stack k ∧ r.ext = 0

/-- No folder on the stack is deleted, and `cd` enters no folder but the one it is asked for. -/
def KeepsStack (x : Fs × DirStack) : SessionEvent → Prop
  | .call (.delete r, reply) => reply.code = 0 → ¬ OnStack x.2 r
  | .call _ => True
  | .cd dirname => ∀ st name, Looks dirname x.2 st name →
      ∀ i, Entered (tableAt x.1 (st.cluster 0).toNat) name i →
        (tableAt x.1 (st.cluster 0).toNat i).name = name

/-- A step that keeps the stack, with a call that the file map follows. -/
def TidyStep (x : Fs × DirStack) (e : SessionEvent) (y : Fs × DirStack) : Prop :=
  SessionStep x e y ∧ KeepsStack x e ∧
    ∀ event, e.call? = some event → EmptyFolders x.1 event ∧ event.1.request.name ≠ 0

variable {s s' : Fs} {st st' : DirStack} {p P : ℕ} {i n : Fin 64} {l : List ℕ}

/-! ## `cd` -/

/-- The folder entered is the one asked for when it has the name. -/
theorem Entered.enters_iff {c : UInt32} {name : Bytes 8} (hs : Inv s) (hlive : Live s c.toNat)
    (h : Entered (tableAt s c.toNat) name i) :
    Enters s c name (tableAt s c.toNat i).cluster ↔ (tableAt s c.toNat i).name = name := by
  have hchild : Child s c.toNat i (tableAt s c.toNat i).cluster.toNat := ⟨h.held hs hlive, h.2.1.2.1, rfl⟩
  constructor
  · rintro ⟨j, hj, hname⟩
    obtain ⟨-, rfl⟩ := hj.unique hchild hs
    exact hname
  · exact fun hname => ⟨i, hchild, hname⟩

/-- The name of the root stays. -/
theorem Cd.rootName {arg : Buffer} (h : Cd s st arg st') {k : Fin 16} (hk : k.val = 0) :
    st'.dir_name_stack k = st.dir_name_stack k := by
  rcases h.cases with ⟨st₁, name, text, hlooks, henter⟩ | ⟨-, m, rfl⟩
  · obtain ⟨-, hnames, -⟩ := hlooks.up
    obtain ⟨hroom, hcases⟩ := enter_inv henter
    have hne : k ≠ ⟨st₁.dir_stack_index, hroom⟩ := fun e => by
      rw [e] at hk
      exact absurd hk (Nat.pos_iff_ne_zero.mp st₁.pos)
    have hkept : (st₁.rename hroom name).dir_name_stack k = st.dir_name_stack k :=
      (Function.update_of_ne hne _ _).trans (congrFun hnames k)
    rcases hcases with ⟨i, -, rfl⟩ | ⟨-, rfl⟩
    · exact hkept
    · exact hkept
  · rfl

/-- **What `cd` does to the stack.** -/
theorem cd_valid_iff {arg : Buffer} (hs : Inv s) (hst : ValidStack s st) (h : Cd s st arg st') :
    ValidStack s st' ↔ KeepsStack (s, st) (.cd arg) := by
  have hrooted : ValidStack s st' ↔ Rooted (Enters s) st' :=
    ⟨fun h' => h'.toRooted, fun h' => ⟨h', fun k hk => (h.rootName hk).trans (hst.rootName k hk)⟩⟩
  rw [hrooted, Cd.rooted_iff hst.toRooted h]
  refine forall₃_congr fun st₁ name hlooks => forall_congr' fun i => ?_
  obtain ⟨hstack, -, hle⟩ := hlooks.up
  have hlive : Live s (st₁.cluster 0).toNat := by
    rw [DirStack.cluster, hstack]
    exact hst.live _ ((ValidStack.slot_lt st₁ 0).trans_le hle)
  rw [clusterIndex_of_lt (hs.live_bounds hlive).2]
  exact forall_congr' fun hi => hi.enters_iff hs hlive

/-! ## Calls -/

theorem Child.added {e : FAT32DirectoryEntry} {cs : List ℕ} {data : ℕ → Cluster} {c : ℕ} (h : Child s p i c)
    (ha : Added s s' P n e cs data) (hs : Inv s) : Child s' p i c := by
  have heq := ha.tableAt_held hs h.held.live h.held.inUse
  refine ⟨ha.held_of_held hs h.held, ?_, ?_⟩
  · rw [heq]
    exact h.attr
  · rw [heq]
    exact h.cluster

/-- New entries do no harm. -/
theorem ValidStack.added {e : FAT32DirectoryEntry} {cs : List ℕ} {data : ℕ → Cluster} (hst : ValidStack s st)
    (ha : Added s s' P n e cs data) (hs : Inv s) : ValidStack s' st where
  root := hst.root
  trail j k hjk hk := by
    obtain ⟨i, hi, hname⟩ := hst.trail j k hjk hk
    refine ⟨i, hi.added ha hs, ?_⟩
    rw [ha.tableAt_held hs hi.held.live hi.held.inUse, hname]
  rootName := hst.rootName

theorem ValidStack.sameFiles (hst : ValidStack s st) (h : SameFiles s s') : ValidStack s' st where
  root := hst.root
  trail j k hjk hk := by
    obtain ⟨i, hi, hname⟩ := hst.trail j k hjk hk
    refine ⟨i, ⟨h.held hi.held, ?_, ?_⟩, ?_⟩
    · rw [h.tableAt]
      exact hi.attr
    · rw [h.tableAt]
      exact hi.cluster
    · rw [h.tableAt, hname]
  rootName := hst.rootName

section

variable {r : FAT32DriverRequest} (h : Cleared s s' r.parent_cluster_number.toNat n l) (hs : Inv s)
  (hname : (tableAt s r.parent_cluster_number.toNat n).name = r.name)

include h hs hname

/-- There is no folder of this name any more. -/
theorem Cleared.not_enters {c : UInt32} : ¬ Enters s' r.parent_cluster_number r.name c := by
  rintro ⟨i, hi, hn⟩
  obtain ⟨hheld, -, hne⟩ := h.held_cases hs hi.held
  rw [h.tableAt_held hs hi.held] at hn
  exact hne ⟨rfl, hs.names hheld h.held (hn.trans hname.symm)⟩

/-- The other folders of the directories that are left stay. -/
theorem Cleared.enters (hext : (tableAt s r.parent_cluster_number.toNat n).ext = r.ext) {a c : UInt32}
    {name : Bytes 8} (hedge : Enters s a name c)
    (hother : ¬ (a = r.parent_cluster_number ∧ name = r.name ∧ r.ext = 0)) (hlive : Live s' a.toNat) :
    Enters s' a name c := by
  obtain ⟨i, hi, hn⟩ := hedge
  obtain ⟨hlive', hal⟩ := h.live_cases hs hlive
  have hne : ¬ (a.toNat = r.parent_cluster_number.toNat ∧ i = n) := by
    rintro ⟨ha, rfl⟩
    obtain rfl := UInt32.toNat_inj.mp ha
    refine hother ⟨rfl, hn.symm.trans hname, hext.symm.trans ?_⟩
    -- a folder has no extension
    rcases (hi.sound hs).kind with hf | hd
    · exact absurd hi.attr hf.attr
    · rw [hd.eq]
      rfl
  have heq := h.tableAt_ne hs hlive' hal hne
  refine ⟨i, ⟨⟨hlive, hi.held.slot, ?_⟩, ?_, ?_⟩, ?_⟩
  · rw [heq]
    exact hi.held.inUse
  · rw [heq]
    exact hi.attr
  · rw [heq]
    exact hi.cluster
  · rw [heq]
    exact hn

/-- **A `delete` leaves the stack valid** when it is not of a folder on the stack. -/
theorem Cleared.valid_iff (hext : (tableAt s r.parent_cluster_number.toNat n).ext = r.ext)
    (hst : ValidStack s st) : ValidStack s' st ↔ ¬ OnStack st r := by
  constructor
  · rintro hst' ⟨j, k, hjk, hk, hparent, hrname, -⟩
    have hedge := hst'.trail j k hjk hk
    rw [← hparent, ← hrname] at hedge
    exact h.not_enters hs hname hedge
  · intro hother
    have htrail : Trail (fun a name c => Enters s a name c ∧
        ¬ (a = r.parent_cluster_number ∧ name = r.name ∧ r.ext = 0)) st.dir_stack st.dir_name_stack
        st.dir_stack_index := fun j k hjk hk =>
      ⟨hst.trail j k hjk hk, fun he => hother ⟨j, k, hjk, hk, he.1.symm, he.2.1.symm, he.2.2⟩⟩
    -- the induction goes up the stack: what is left of it is live
    have hlive : ∀ k : Fin 16, k.val < st.dir_stack_index → Live s' (st.dir_stack k).toNat := by
      refine htrail.induct (fun c => Live s' c.toNat) (fun k hk => ?_) fun a name c hedge ha => ?_
      · rw [hst.root k hk]
        exact .root
      · obtain ⟨i, hi, -⟩ := h.enters hs hname hext hedge.1 hedge.2 ha
        exact hi.live
    refine ⟨⟨hst.root, fun j k hjk hk => ?_⟩, hst.rootName⟩
    exact h.enters hs hname hext (htrail j k hjk hk).1 (htrail j k hjk hk).2 (hlive j (by omega))

end

/-- **What a call does to the stack.** -/
theorem call_valid_iff {event : Call × Reply} (hs : Inv s) (hst : ValidStack s st) (h : Step s event s') :
    ValidStack s' st ↔ KeepsStack (s, st) (.call event) := by
  obtain ⟨call, reply⟩ := event
  obtain ⟨hlegal, fuel, hexec⟩ := h
  cases call with
  | write r =>
    refine iff_of_true ?_ trivial
    rcases write_legal hs hlegal hexec with ⟨-, hu⟩ | ⟨-, n, e, cs, data, ha, -⟩
    · exact hst.sameFiles hu.sameFiles
    · exact hst.added ha hs
  | delete r =>
    rcases delete_legal hs hlegal hexec with ⟨hcode, rfl⟩ | ⟨hcode, i, l, hi, hcl, -⟩
    · exact iff_of_true hst fun h0 => absurd h0 hcode
    · obtain ⟨-, hname, hext⟩ := hi.spec
      exact (hcl.valid_iff hs hname hext hst).trans ⟨fun h _ => h, fun h => h hcode⟩
  | read r =>
    obtain rfl := read_unchanged hexec
    exact iff_of_true hst trivial
  | read_directory r =>
    obtain rfl := read_directory_unchanged hexec
    exact iff_of_true hst trivial

/-! ## Sessions -/

variable {x y : Fs × DirStack} {e : SessionEvent}

theorem sessionStep_call {event : Call × Reply} (h : Step s event s') :
    SessionStep (s, st) (.call event) (s', st) :=
  ⟨h, rfl⟩

theorem sessionStep_cd {dirname : Buffer} (h : Cd s st dirname st') :
    SessionStep (s, st) (.cd dirname) (s, st') :=
  ⟨rfl, h⟩

theorem SessionStep.inv (h : SessionStep x e y) (hs : Inv x.1) : Inv y.1 := by
  cases e with
  | call event => exact inv_step x.1 event y.1 hs h.1
  | cd dirname =>
    rw [h.1]
    exact hs

/-- **The step lemma.** -/
theorem SessionStep.valid_iff (h : SessionStep x e y) (hs : Inv x.1) (hst : ValidStack x.1 x.2) :
    ValidStack y.1 y.2 ↔ KeepsStack x e := by
  cases e with
  | call event =>
    rw [h.2]
    exact call_valid_iff hs hst h.1
  | cd dirname =>
    rw [h.1]
    exact cd_valid_iff hs hst h.2

theorem files_step (h : SessionStep x e y) (hcall : e.call? = none) : y.1 = x.1 := by
  cases e with
  | call event => exact absurd hcall (by simp [SessionEvent.call?])
  | cd dirname => exact h.1

/-- The files of a tidy session are those of a run of its calls. -/
theorem files_session {events : List SessionEvent} (h : Run TidyStep x events y) :
    Run CycleStep x.1 ((events.filterMap SessionEvent.call?).map CycleEvent.call) y.1 := by
  induction h with
  | nil => exact .nil
  | @snoc y z events e _ hstep ih =>
    rw [List.filterMap_append, List.map_append]
    cases hcall : e.call? with
    | none =>
      rw [files_step hstep.1 hcall, List.filterMap_cons_none hcall]
      simpa using ih
    | some event =>
      rw [List.filterMap_cons_some hcall]
      obtain ⟨hempty, hname⟩ := hstep.2.2 event hcall
      cases e with
      | cd dirname => exact absurd hcall (by simp [SessionEvent.call?])
      | call event' =>
        obtain rfl := Option.some.inj hcall
        exact ih.snoc ⟨⟨hstep.1.1, hempty⟩, hname⟩

/-- In a tidy session the stack stays valid. -/
theorem valid_session {events : List SessionEvent} (h : Run TidyStep x events y) (hs : Inv x.1)
    (hst : ValidStack x.1 x.2) : ValidStack y.1 y.2 := by
  refine (h.invariant (fun x => Inv x.1 ∧ ValidStack x.1 x.2) (fun x e y hx h => ?_) ⟨hs, hst⟩).2
  exact ⟨h.1.inv hx.1, (h.1.valid_iff hx.1 hx.2).mpr h.2.1⟩

/-- **The stack of a session.** It is valid in every session whose steps keep it, whatever happened to the files
before; and from a valid one, no other step keeps it. -/
theorem session_stack_iff (d : Disk) (es : List CycleEvent) (s₀ : Fs) (uninitialised : Fin 16 → UInt32)
    (hd : is_empty_storage d = true) (hes : Run CycleStep (mount d) es s₀) :
    (∀ events x, Run (fun x e y => SessionStep x e y ∧ KeepsStack x e) (s₀, shellStack uninitialised) events x →
      ValidStack x.1 x.2) ∧
    ∀ events x e y, Run SessionStep (s₀, shellStack uninitialised) events x → ValidStack x.1 x.2 →
      SessionStep x e y → (ValidStack y.1 y.2 ↔ KeepsStack x e) := by
  obtain ⟨-, -, ⟨hs₀, -⟩, -⟩ := tracks_of_cycles hd hes
  refine ⟨fun events x hrun => ?_, fun events x e y hrun hst hstep => hstep.valid_iff ?_ hst⟩
  · refine (hrun.invariant (fun x => Inv x.1 ∧ ValidStack x.1 x.2) (fun x e y hx h => ?_)
      ⟨hs₀, validStack_shellStack s₀ uninitialised⟩).2
    exact ⟨h.1.inv hx.1, (h.1.valid_iff hx.1 hx.2).mpr h.2⟩
  · exact hrun.invariant (fun x => Inv x.1) (fun x e y hx h => h.inv hx) hs₀

/-- `cd a`, where the only folder is `a`. -/
theorem cd_folder_a {c : UInt32}
    (htable : tableAt s 2 = Function.update (tableAt (boot 0) 2) 1 (folderEntry (small 2 97 0).name 0 c)) :
    ∃ st, Cd s (shellStack 0) (cstring [97]) st ∧ KeepsStack (s, shellStack 0) (.cd (cstring [97])) ∧
      OnStack st (small 2 97 0) := by
  have hlook : Looks (cstring [97]) (shellStack 0) ((shellStack 0).up 0) (small 2 97 0).name := by
    have hname : dir_name (shift (cstring [97]) (3 * 0)) = (small 2 97 0).name := by decide
    rw [← hname]
    exact .child ⟨fun j hj => absurd hj (Nat.not_lt_zero j), by decide⟩ (by decide) (by decide)
  have hcluster : (((shellStack 0).up 0).cluster 0).toNat = 2 := rfl
  have hindex : clusterIndex (((shellStack 0).up 0).cluster 0) = 2 := hlook.cluster_root.1
  have hentry : tableAt s 2 1 = folderEntry (small 2 97 0).name 0 c := by rw [htable, Function.update_self]
  have hfirst : Entered (tableAt s 2) (small 2 97 0).name 1 := by
    refine ⟨by decide, ⟨foundIn_request_name_iff.mpr (.inl ⟨1, by decide, ?_, fun j _ => ?_⟩), ?_⟩,
      fun j hj hj0 => ?_⟩
    · rw [hentry]
      rfl
    · rw [hentry]
      rfl
    · rw [hentry]
      exact ⟨rfl, rfl⟩
    · exact absurd (Fin.pos_of_ne_zero hj0) (by omega)
  obtain ⟨st, hcd⟩ := (cd_returns_iff s (shellStack 0) (show cstring [97] 1 = 0 by decide)).mpr
    fun st₁ name hlooks => hlooks.cluster_root.2
  refine ⟨st, hcd, ?_, ?_⟩
  · intro st₁ name hlooks i hi
    obtain ⟨rfl, rfl⟩ := hlooks.unique hlook
    rw [hcluster] at hi ⊢
    obtain rfl := hi.unique hfirst
    rw [hentry]
    rfl
  · rcases hcd.cases with ⟨st₁, name, text, hlooks, henter⟩ | ⟨hnone, -⟩
    · obtain ⟨rfl, rfl⟩ := hlooks.unique hlook
      obtain ⟨hroom, ⟨i, hi, rfl⟩ | ⟨hnone, -⟩⟩ := enter_inv henter
      · exact ⟨0, 1, rfl, Nat.lt_succ_self _, rfl, rfl, rfl⟩
      · rw [hindex] at hnone
        exact absurd hfirst (hnone 1)
    · exact absurd hlook (hnone _ _)

/-- In a new folder `a`, `rm ../a` leaves the stack without its top. -/
theorem session_stack_iff_a : ∃ reply reply' s s' st,
    Run (fun x e y => SessionStep x e y ∧ KeepsStack x e) (mount 0, shellStack 0)
      [.call (.write (small 2 97 0), reply), .cd (cstring [97])] (s, st) ∧ ValidStack s st ∧
    SessionStep (s, st) (.call (.delete (small 2 97 0), reply')) (s', st) ∧ ¬ ValidStack s' st := by
  obtain ⟨reply, s, c, hstep, -, hfolder, htable, hempty, -⟩ := boot_folder 0 97 (by decide)
  obtain ⟨st, hcd, hkeeps, hon⟩ := cd_folder_a htable
  rw [← mount_unformatted is_empty_storage_zero] at hstep
  obtain ⟨reply', s', hdelete, hcode, -⟩ :=
    delete_succeeds (P := 2) (r := small 2 97 0) hfolder.inv rfl hfolder.held
    (by rw [hfolder.entry]; rfl) (by rw [hfolder.entry]; rfl) fun _ => by
      rw [hfolder.entry, cluster_folderEntry, scan_folder_gt_one, hempty 1 (by decide)]
      exact not_inUse_zero
  obtain ⟨hvalid, hsteps⟩ := session_stack_iff 0 [] (mount 0) 0 is_empty_storage_zero .nil
  have hplain : Run SessionStep (mount 0, shellStack 0)
      ([.call (.write (small 2 97 0), reply)] ++ [.cd (cstring [97])]) (s, st) :=
    (Run.single (sessionStep_call hstep)).snoc (sessionStep_cd hcd)
  have hrun : Run (fun x e y => SessionStep x e y ∧ KeepsStack x e) (mount 0, shellStack 0)
      ([.call (.write (small 2 97 0), reply)] ++ [.cd (cstring [97])]) (s, st) :=
    (Run.single ⟨sessionStep_call hstep, trivial⟩).snoc ⟨sessionStep_cd hcd, hkeeps⟩
  have hst := hvalid _ _ hrun
  have hlast : SessionStep (s, st) (.call (.delete (small 2 97 0), reply')) (s', st) :=
    sessionStep_call hdelete
  exact ⟨reply, reply', s, s', st, hrun, hst, hlast, fun h =>
    (hsteps _ _ _ _ hplain hst hlast).mp h hcode hon⟩

end KeropOS
