import KeropOS.Fat.FileMap
import KeropOS.Fat.Inserter
import KeropOS.Fat.Lookup

/-!
# Power cycles

The driver's memory is lost when the machine is switched off or the inserter ends; what is left is
the drive. `initialize_filesystem_fat32` starts the driver again from it.

* `mount`: the driver's start; `CycleStep`: a call, or a power cycle;
* **`power_cycles_keep_map`**: every run of calls and power cycles is a run of the map;
* `Inserter.main`: one run of the inserter; **`insert_run`**: it is two cycles with a `write` between them;
* **`inserted_file_reads_back`**: what was inserted is read back; `first_insert`: the first run succeeds.
-/

namespace KeropOS

open Packed Linked Transition

/-- The state after `initialize_filesystem_fat32` of a driver that starts on the drive `d`. -/
def mount (d : Disk) : Fs :=
  initialize_filesystem_fat32
    { disk := d, driver_state := { cluster_map := 0, dir_table_buf := 0, cluster_buf := 0 } }

theorem mount_unformatted {d : Disk} (h : is_empty_storage d = true) : mount d = boot d := by
  rw [mount, initialize_filesystem_fat32, if_pos h]
  rfl

variable {s s' : Fs} {m : FileMap}

/-- **A mounted driver has the files of the one that is gone.** -/
theorem Inv.sameFiles_mount (hs : Inv s) : SameFiles s (mount s.disk) := by
  have hempty : is_empty_storage s.disk = false := by
    rw [is_empty_storage, hs.signature]
    simp
  have hfat : read_clusters s.disk 1 = fatLayout.encode s.cluster_map := by
    rw [read_clusters_eq]
    exact hs.fat
  unfold mount initialize_filesystem_fat32
  rw [if_neg (by rw [hempty]; decide)]
  exact ⟨rfl, by rw [Fs.cluster_map, hfat, Layout.decode_encode]⟩

/-! ## Runs with power cycles -/

/-- A call with its reply, or a power cycle. -/
inductive CycleEvent
  | call (event : Call × Reply)
  | cycle

/-- The calls among the events. -/
def CycleEvent.call? : CycleEvent → Option (Call × Reply)
  | .call event => some event
  | .cycle => none

theorem filterMap_call (events : List (Call × Reply)) :
    (events.map CycleEvent.call).filterMap CycleEvent.call? = events := by
  rw [List.filterMap_map]
  exact List.filterMap_some

/-- One call, or the driver starting again from the drive. -/
def CycleStep (s : Fs) : CycleEvent → Fs → Prop
  | .call event, s' => StepNamed s event s'
  | .cycle, s' => s' = mount s.disk

/-- **A power cycle keeps the invariant and the map.** -/
theorem cycle_step (s : Fs) (event : CycleEvent) (s' : Fs) (h : CycleStep s event s') (m : FileMap)
    (hm : (Inv s ∧ NoLeak s) ∧ Tracks s m) :
    ∃ m', (match event with
      | .call e => MapStep m e m'
      | .cycle => m' = m) ∧ (Inv s' ∧ NoLeak s') ∧ Tracks s' m' := by
  cases event with
  | call event => exact map_step s event s' h m hm
  | cycle =>
    have hsame := hm.1.1.sameFiles_mount
    rw [CycleStep] at h
    rw [h]
    exact ⟨m, rfl, ⟨hsame.inv hm.1.1, hsame.noLeak hm.1.2⟩, hsame.tracks hm.1.1 hm.2⟩

/-- A run, with power cycles, follows a run of the map. -/
theorem cycle_run {s₀ : Fs} {m₀ : FileMap} {es : List CycleEvent} (h : Run CycleStep s₀ es s)
    (h₀ : (Inv s₀ ∧ NoLeak s₀) ∧ Tracks s₀ m₀) :
    ∃ m, Run MapStep m₀ (es.filterMap CycleEvent.call?) m ∧ (Inv s ∧ NoLeak s) ∧ Tracks s m := by
  induction h with
  | nil => exact ⟨m₀, .nil, h₀⟩
  | @snoc t u es e _ hstep ih =>
    obtain ⟨m, hrun, hm⟩ := ih
    obtain ⟨m', hmap, hm'⟩ := cycle_step t e u hstep m hm
    refine ⟨m', ?_, hm'⟩
    rw [List.filterMap_append]
    cases e with
    | call e => exact hrun.snoc hmap
    | cycle =>
      obtain rfl : m' = m := hmap
      rw [show List.filterMap CycleEvent.call? [CycleEvent.cycle] = [] from rfl, List.append_nil]
      exact hrun

/-- A state that the map tracks has the map. -/
theorem Tracks.isMap (hm : Tracks s m) (hs : Inv s) : IsMap s m where
  present := hm
  read_file r bytes hk hsize := read_present hs ((hm _ _).mp hk) hsize
  read_none r hlive hname hsize hk := by
    apply read_absent hs hlive hname hsize
    intro node hp
    rw [(hm _ _).mpr hp] at hk
    exact absurd hk (by simp)
  names p i j := hs.names

theorem tracks_of_cycles {d : Disk} {es : List CycleEvent} (hd : is_empty_storage d = true)
    (h : Run CycleStep (mount d) es s) :
    ∃ m, Run MapStep (fun _ => none) (es.filterMap CycleEvent.call?) m ∧ (Inv s ∧ NoLeak s) ∧ Tracks s m := by
  rw [mount_unformatted hd] at h
  exact cycle_run h ⟨⟨inv_boot d, noLeak_boot d⟩, tracks_boot d⟩

/-- Entry 0 of the root stays its own. -/
theorem rootSelf_of_cycles {d : Disk} {es : List CycleEvent} (hd : is_empty_storage d = true)
    (h : Run CycleStep (mount d) es s) : RootSelf s := by
  rw [mount_unformatted hd] at h
  refine (h.invariant (fun s => Inv s ∧ RootSelf s) (fun s e t hs hstep => ?_)
    ⟨inv_boot d, rootSelf_boot d⟩).2
  cases e with
  | call event =>
    obtain ⟨⟨hstep, -⟩, -⟩ := hstep
    exact ⟨inv_step s event t hs.1 hstep,
      rootSelf_stepOn s _ t hs.1 hs.2 hstep.on (cleanStack_zero event.1 event.2)⟩
  | cycle =>
    rw [CycleStep] at hstep
    have hsame := hs.1.sameFiles_mount
    rw [← hstep] at hsame
    refine ⟨hsame.inv hs.1, ?_⟩
    unfold RootSelf
    rw [hsame.tableAt]
    exact hs.2

/-- **Power cycles lose nothing.** The file system simulates the finite map also in runs with power
cycles at any point, which the map does not see; and a driver that starts on the drive as the run
leaves it has the same map. -/
theorem power_cycles_keep_map (d : Disk) (hd : is_empty_storage d = true) (es : List CycleEvent) (s : Fs)
    (h : Run CycleStep (mount d) es s) :
    ∃ m, Run MapStep (fun _ => none) (es.filterMap CycleEvent.call?) m ∧ IsMap s m ∧
      IsMap (mount s.disk) m := by
  obtain ⟨m, hrun, hs, hm⟩ := tracks_of_cycles hd h
  have hsame := hs.1.sameFiles_mount
  exact ⟨m, hrun, hm.isMap hs.1, (hsame.tracks hs.1 hm).isMap (hsame.inv hs.1)⟩

theorem is_empty_storage_zero : is_empty_storage 0 = true := by
  rw [is_empty_storage, Bool.not_eq_true', ← Bool.not_eq_true, sameBytes_iff]
  exact fun h => absurd (congrFun h 0) (by decide)

/-- A file is written, and the driver starts again. -/
theorem power_cycles_keep_map_firstFile : ∃ reply s m,
    Run CycleStep (mount 0) [.call (.write firstFile, reply), .cycle] s ∧
      IsMap s m ∧ IsMap (mount s.disk) m := by
  obtain ⟨reply, s, hstep, -⟩ := boot_firstFile
  have hname : firstFile.name ≠ 0 := fun h => absurd (congrFun h 0) (by decide)
  have hcall : CycleStep (mount 0) (.call (.write firstFile, reply)) s := by
    rw [mount_unformatted is_empty_storage_zero]
    exact ⟨⟨hstep, trivial⟩, hname⟩
  have hcycle : CycleStep s .cycle (mount s.disk) := rfl
  have hrun := (Run.single hcall).snoc hcycle
  obtain ⟨m, -, hs, hm⟩ := power_cycles_keep_map 0 is_empty_storage_zero _ _ hrun
  exact ⟨reply, _, m, hrun, hs, hm⟩

/-! ## The inserter -/

namespace Inserter

/-- The white space of `scanf`. -/
def isSpace (c : UInt8) : Bool := c == 32 || (9 ≤ c && c ≤ 13)

/-- `sscanf(argv[1], "%8s", request.name)`, of a name that is zero before. -/
def scan_name (arg : List UInt8) : Bytes 8 := fun i =>
  (((arg.dropWhile isSpace).takeWhile fun c => !isSpace c).take 8).getD i 0

/-- The request of `main`; `filesize` is 0 when there is no file to insert. -/
def request (arg : List UInt8) (parent_cluster_number filesize : UInt32) (file_buffer : Buffer) :
    FAT32DriverRequest where
  buf := file_buffer
  name := scan_name arg
  ext := 0
  parent_cluster_number := parent_cluster_number
  buffer_size := filesize

/-- `main`, on the bytes of the image: the return code of `write`, and the image written back. -/
def main (image : Disk) (r : FAT32DriverRequest) : Except Trap (ℤ × Disk) :=
  match KeropOS.write 0 (mount image) r with
  | .error t => .error t
  | .ok (code, s) => .ok (code, s.disk)

end Inserter

/-- **A run of the inserter** is a driver that starts on the image, and a `write`. -/
theorem insert_run {r : FAT32DriverRequest} {code : ℤ} {d' : Disk}
    (h : Inserter.main s.disk r = .ok (code, d')) (hlegal : Legal (mount s.disk) (.write r))
    (hname : r.name ≠ 0) :
    ∃ s', Run CycleStep s [.cycle, .call (.write r, ⟨code, r.buf⟩)] s' ∧ s'.disk = d' := by
  unfold Inserter.main at h
  split at h
  · exact absurd h (by simp)
  · rename_i code' s' hw
    obtain ⟨rfl, rfl⟩ := Prod.mk.inj (Except.ok.inj h)
    have hcycle : CycleStep s .cycle (mount s.disk) := rfl
    refine ⟨s', .snoc (.single hcycle) ⟨⟨⟨hlegal, 0, ?_⟩, trivial⟩, hname⟩, rfl⟩
    rw [exec, hw]

/-- The last `write`, of a file, returned 0. -/
theorem written_last {r : FAT32DriverRequest} {events : List (Call × Reply)} {m₀ m : FileMap} {buf : Buffer}
    (hsize : r.buffer_size ≠ 0) (h : Run MapStep m₀ (events ++ [(.write r, ⟨0, buf⟩)]) m) :
    m r.key = some (.file (firstBytes r.buffer_size.toNat r.buf)) := by
  have hmade : r.made = (r.key, .file (firstBytes r.buffer_size.toNat r.buf)) := if_neg hsize
  obtain ⟨m₁, -, hlast⟩ := Run.snoc_iff.mp h
  cases hlast with
  | made _ _ => rw [hmade, Function.update_self]
  | refused hcode => exact absurd rfl hcode

/-- The file that was inserted is in the map of a kernel that starts on the new image. -/
theorem inserted_tracks {d d' : Disk} {r : FAT32DriverRequest} (hd : is_empty_storage d = true)
    {es : List CycleEvent} (h : Run CycleStep (mount d) es s) (hlegal : Legal (mount s.disk) (.write r))
    (hname : r.name ≠ 0) (hsize : r.buffer_size ≠ 0) (hmain : Inserter.main s.disk r = .ok (0, d')) :
    ∃ m, Inv (mount d') ∧ Tracks (mount d') m ∧
    m r.key = some (.file (firstBytes r.buffer_size.toNat r.buf)) := by
  obtain ⟨s', hrun, rfl⟩ := insert_run hmain hlegal hname
  obtain ⟨m, hmap, hs, hm⟩ := tracks_of_cycles hd (h.append hrun)
  have hsame := hs.1.sameFiles_mount
  rw [List.filterMap_append] at hmap
  exact ⟨m, hsame.inv hs.1, hsame.tracks hs.1 hm, written_last hsize hmap⟩

/-- **What the inserter puts in, the kernel reads.** A file inserted into the image of any run is
read back whole by a kernel that starts on the new image. -/
theorem inserted_file_reads_back {d d' : Disk} (hd : is_empty_storage d = true) {es : List CycleEvent}
    (h : Run CycleStep (mount d) es s) (arg : List UInt8) (parent_cluster_number filesize : UInt32)
    (file_buffer : Buffer)
    (hlegal : Legal (mount s.disk)
      (.write (Inserter.request arg parent_cluster_number filesize file_buffer)))
    (hname : Inserter.scan_name arg ≠ 0) (hsize : filesize ≠ 0)
    (hmain : Inserter.main s.disk (Inserter.request arg parent_cluster_number filesize file_buffer) =
      .ok (0, d')) (buf : Buffer) :
    ∃ buf', read (mount d') (Inserter.request arg parent_cluster_number filesize buf) = .ok (0, buf') ∧
      firstBytes filesize.toNat buf' = firstBytes filesize.toNat file_buffer := by
  obtain ⟨m, hs, hm, hfile⟩ := inserted_tracks hd h hlegal hname hsize hmain
  have hlength : (firstBytes filesize.toNat file_buffer).length = filesize.toNat := by
    simp [firstBytes]
  obtain ⟨buf', hread, hbytes⟩ := (hm.isMap hs).read_file
    (Inserter.request arg parent_cluster_number filesize buf) (firstBytes filesize.toNat file_buffer) hfile
    hlength.symm
  rw [hlength] at hbytes
  exact ⟨buf', hread, hbytes⟩

/-- A file inserted into a new image goes in, when there is room for it, as entry 1 of the root. -/
theorem first_insert {arg : List UInt8} (filesize : UInt32) (file_buffer : Buffer)
    (hname : Inserter.scan_name arg ≠ 0) (hsize : SizeOk filesize) (hroom : cellsNeeded filesize ≤ 509) :
    Legal (mount (mount 0).disk) (.write (Inserter.request arg 2 filesize file_buffer)) ∧
      ∃ d', Inserter.main (mount 0).disk (Inserter.request arg 2 filesize file_buffer) = .ok (0, d') ∧
        ∃ c, tableAt (mount d') 2 =
          Function.update (tableAt (boot 0) 2) 1 (fileEntry (Inserter.scan_name arg) 0 filesize c) := by
  have hboot : mount 0 = boot 0 := mount_unformatted is_empty_storage_zero
  have hsame : SameFiles (boot 0) (mount (mount 0).disk) := by
    rw [hboot]
    exact (inv_boot 0).sameFiles_mount
  have hinv : Inv (mount (mount 0).disk) := hsame.inv (inv_boot 0)
  have hlegal : Legal (mount (mount 0).disk) (.write (Inserter.request arg 2 filesize file_buffer)) := by
    refine ⟨.root, ?_, .inr hsize⟩
    change ∃ n, ¬ (tableAt _ 2 n).InUse
    rw [hsame.tableAt]
    exact boot_free_slot 0
  have hfresh : FreshName (tableAt (mount (mount 0).disk) 2) (Inserter.scan_name arg) := by
    rw [hsame.tableAt]
    exact boot_freshName 0 hname
  have hcells : cellsNeeded filesize ≤ (emptyCells (mount (mount 0).disk).cluster_map).length := by
    rw [hsame.map, emptyCells_boot, List.length_range']
    exact hroom
  obtain ⟨reply, s', hstep, hcode, n, e, cs, data, hfree, hadded, hasked⟩ :=
    write_succeeds hinv hlegal hname hfresh hcells
  refine ⟨hlegal, s'.disk, ?_, e.cluster, ?_⟩
  · obtain ⟨-, fuel, hexec⟩ := hstep
    unfold Inserter.main
    cases hw : write 0 (mount (mount 0).disk) (Inserter.request arg 2 filesize file_buffer) with
    | error e =>
      rw [exec, hw] at hexec
      exact absurd hexec (by simp)
    | ok result =>
      rw [exec, hw] at hexec
      obtain ⟨rfl, rfl⟩ := Prod.mk.inj (Except.ok.inj hexec)
      exact congrArg (fun code => Except.ok (code, result.2.disk)) hcode
  · have hsame' : SameFiles s' (mount s'.disk) := (inv_step _ _ _ hinv hstep).sameFiles_mount
    have hparent : (Inserter.request arg 2 filesize file_buffer).parent_cluster_number.toNat = 2 := rfl
    rw [hparent] at hfree hadded
    have hn : n = 1 := by
      rw [hsame.tableAt] at hfree
      exact hfree.eq_one ((inv_boot 0).self .root) (boot_slot 0 (by decide))
    have he : e = fileEntry (Inserter.scan_name arg) 0 filesize e.cluster := by
      rcases hasked with ⟨h0, -⟩ | ⟨-, he, -⟩
      · exact absurd h0 hsize.ne_zero
      · exact he
    rw [hsame'.tableAt, hadded.tableAt_live hinv .root, if_pos rfl, hsame.tableAt, hn, ← he]

/-- Five bytes inserted under the name `a` into a new image. -/
theorem inserted_file_reads_back_a : ∃ d' buf',
    Inserter.main (mount 0).disk (Inserter.request [97] 2 5 firstFile.buf) = .ok (0, d') ∧
      read (mount d') (Inserter.request [97] 2 5 0) = .ok (0, buf') ∧
      firstBytes 5 buf' = [0, 1, 2, 3, 4] := by
  have hname : Inserter.scan_name [97] ≠ 0 := fun h => absurd (congrFun h 0) (by decide)
  obtain ⟨hlegal, d', hmain, -⟩ := first_insert 5 firstFile.buf hname ⟨by decide, by decide⟩ (by decide)
  obtain ⟨buf', hread, hbytes⟩ := inserted_file_reads_back is_empty_storage_zero (.nil) [97] 2 5
    firstFile.buf hlegal hname (by decide) hmain 0
  exact ⟨d', buf', hmain, hread, hbytes⟩

end KeropOS
