import KeropOS.Shell.Files
import KeropOS.Fat.Below

/-!
# What `cp` does

The size is that of the last entry that passes for the source; `read` stores whole clusters; the destination is
deleted, and then written.

* `Copy`: the arguments of `cepe`, and the state it starts from; `Copy.Copies`, `Copy.Leaves`;
* `read_source_refused`, `read_source`: the first half;
* **`put_inv`**, `put_returns`: the second half; **`replaced_iff`**: what it makes of a copy;
* **`Copy.copies_iff`**, **`cp_copies_iff`**: when the destination becomes a copy of the source.
-/

namespace KeropOS

open Packed Linked Transition

/-! ## The size -/

/-- Entry `k` passes for the source `name`: `strcmp` gives 0, whatever its extension is. -/
def PassesLoosely (t : FAT32DirectoryTable) (name : Bytes 8) (k : Fin 64) : Prop :=
  Heads t name k ∨ ((t k).name = name ∧ (t k).ext 0 = 0)

instance (t : FAT32DirectoryTable) (name : Bytes 8) (k : Fin 64) : Decidable (PassesLoosely t name k) :=
  inferInstanceAs (Decidable (_ ∨ _))

/-- The size of the last entry that passes, or what was in the variable. -/
def lastSize (t : FAT32DirectoryTable) (name : Bytes 8) (filesize : UInt32) : UInt32 :=
  match (List.finRange 64).reverse.find? fun k => decide (PassesLoosely t name k) with
  | some k => (t k).filesize
  | none => filesize

theorem find?_reverse_finRange (p : Fin 64 → Bool) : (List.finRange 64).reverse.find? p = Fin.findRev? p := by
  rw [List.finRange_reverse, List.find?_map, ← Fin.find?_eq_find?_finRange]
  show (Fin.find? fun k => p k.rev).map Fin.rev = _
  rw [Fin.find?_rev, Option.map_map, Fin.rev_involutive.comp_self, Option.map_id]
  rfl

/-- The last entry that passes gives the size. -/
theorem lastSize_eq {t : FAT32DirectoryTable} {name : Bytes 8} {k : Fin 64} (filesize : UInt32)
    (hk : PassesLoosely t name k) (hlast : ∀ j, k < j → ¬ PassesLoosely t name j) :
    lastSize t name filesize = (t k).filesize := by
  have hfind : ((List.finRange 64).reverse.find? fun k => decide (PassesLoosely t name k)) = some k := by
    rw [find?_reverse_finRange]
    exact Fin.findRev?_eq_some_iff.mpr ⟨decide_eq_true hk, fun j hj => decide_eq_false (hlast j hj)⟩
  unfold lastSize
  rw [hfind]

theorem find_filesize_eq (t : FAT32DirectoryTable) (name : Bytes 8) (filesize : UInt32) :
    find_filesize t (request_name name) (List.finRange 64) filesize = .ok (lastSize t name filesize) := by
  unfold lastSize
  induction List.finRange 64 generalizing filesize with
  | nil => rfl
  | cons k slots ih =>
    obtain ⟨c, hc⟩ := strcmp_request_name t k name
    have hpass : c = 0 ↔ PassesLoosely t name k := by
      rw [PassesLoosely, ← foundIn_request_name_iff, FoundIn, hc, Option.some_inj]
    rw [find_filesize, hc, List.reverse_cons, List.find?_append]
    dsimp only
    rw [ih]
    rcases slots.reverse.find? fun k => decide (PassesLoosely t name k) with _ | j
    · simp only [Option.none_or, List.find?_singleton, hpass]
      by_cases h : PassesLoosely t name k
      · simp only [h, if_true, decide_true]
      · simp only [h, if_false, decide_false, Bool.false_eq_true]
    · rfl

/-! ## Calls of `cepe` -/

/-- What follows a token on the line starts with zeros, as many as the parsers read. -/
def EndsClean (e : List UInt8) (x : Buffer) : Prop := ∀ j < 2 - e.length, x j = 0

theorem endsClean_iff {e : List UInt8} {x : Buffer} :
    (fun j : Fin 3 => typed e x j) = (padded e : Bytes 3) ↔ EndsClean e x := by
  rw [funext_iff]
  exact padded_iff (m := 3)

/-- `cp n.e ../../n'.e'` with `k` times `"../"`, and the state it starts from; `x` and `y` follow the
arguments. -/
structure Copy where
  fs : Fs
  st : DirStack
  uninitialised : CepeLocals
  n : List UInt8
  e : List UInt8
  x : Buffer
  k : ℕ
  n' : List UInt8
  e' : List UInt8
  y : Buffer

namespace Copy

variable (m : Copy)

/-- The directories of the source and of the destination. -/
def cur : ℕ := (m.st.cluster 0).toNat
def parent : ℕ := (m.st.cluster m.k).toNat

def source : Key := ⟨m.cur, padded m.n, padded m.e⟩
def dest : Key := ⟨m.parent, padded m.n', padded m.e'⟩

def run (fuel : ℕ) : Except Trap (Option String × Fs) :=
  cepe fuel m.uninitialised m.fs (typed (tokenText m.n m.e) m.x)
    (typed (ups m.k ++ tokenText m.n' m.e') m.y) m.st

/-- The destination lies in a directory on the stack. -/
structure Ok : Prop where
  valid : ValidStack m.fs m.st
  token : Token m.n m.e
  token' : Token m.n' m.e'
  above : m.k < m.st.dir_stack_index

/-- Entry `i` is the source, a file with chain `l`. -/
def Source (i : Fin 64) (l : List ℕ) : Prop := FileHere m.fs m.st m.n m.e i l

/-- `cepe` returns, and source and destination are files with these bytes. -/
def Copies (bytes : List UInt8) : Prop :=
  ∃ fuel text s', m.run fuel = .ok (text, s') ∧ Present s' m.dest (.file bytes) ∧
    Present s' m.source (.file bytes)

/-- `cepe` returns, and nothing has changed. -/
def Leaves : Prop := ∃ fuel text, m.run fuel = .ok (text, m.fs)

/-- The size of the buffer. -/
def size : UInt32 := lastSize (tableAt m.fs m.cur) (padded m.n) m.uninitialised.filesize

/-- There is an entry to delete: a file, or a folder whose slot 1 is free. -/
def Deletes (j : Fin 64) : Prop :=
  Held m.fs m.parent j ∧ (tableAt m.fs m.parent j).name = padded m.n' ∧
    ((tableAt m.fs m.parent j).ext = fun a : Fin 3 => typed m.e' m.y a) ∧
    ∀ c, Child m.fs m.parent j c → ¬ (tableAt m.fs c 1).InUse

/-! ### The source -/

/-- The request for the bytes of the source. -/
def read_request : FAT32DriverRequest where
  buf := m.uninitialised.buffer
  name := padded m.n
  ext := fun a : Fin 3 => typed m.e m.x a
  parent_cluster_number := m.st.cluster 0
  buffer_size := m.size

variable {m} {fuel : ℕ} {i j : Fin 64} {l : List ℕ} {text : Option String} {s' : Fs} {bytes : List UInt8}

theorem read_request_size : m.read_request.buffer_size = m.size := by
  simp only [read_request]

/-- Behind its arguments, `cepe` is `copy_file`. -/
theorem run_eq (hs : Inv m.fs) (hroot : RootSelf m.fs) (hm : m.Ok)
    (hd : destination fuel (typed (ups m.k ++ tokenText m.n' m.e') m.y) =
      .ok (m.k, typed (tokenText m.n' m.e') m.y)) :
    m.run fuel = copy_file fuel m.uninitialised m.fs (padded m.n, fun a : Fin 3 => typed m.e m.x a) m.size
      (typed (tokenText m.n' m.e') m.y) m.st m.k := by
  have hcode := hm.valid.read_directory_code hs hroot 0
  have htable : tableLayout.decode (read_clusters m.fs.disk (m.st.cluster 0)) = tableAt m.fs m.cur := by
    rw [read_clusters_eq, hm.valid.clusterIndex hs, tableAt, cur]
  have hpath : ¬ (0 < m.k ∧ m.st.dir_stack_index ≤ m.k) := fun h => absurd hm.above (not_lt.mpr h.2)
  have hhere : here (typed (tokenText m.n m.e) m.x) = typed (tokenText m.n m.e) m.x :=
    (hm.token.destination 0).1
  rw [run, cepe, hd]
  simp only [hpath, if_false, hcode, ne_eq, not_true_eq_false, hhere, cepe_key,
    hm.token.short_file_key, htable, realFileName, hm.token.dest_name, find_filesize_eq]
  rfl

theorem run_inv (hs : Inv m.fs) (hroot : RootSelf m.fs) (hm : m.Ok) (h : m.run fuel = .ok (text, s')) :
    copy_file fuel m.uninitialised m.fs (padded m.n, fun a : Fin 3 => typed m.e m.x a) m.size
      (typed (tokenText m.n' m.e') m.y) m.st m.k = .ok (text, s') := by
  rcases hd : destination fuel (typed (ups m.k ++ tokenText m.n' m.e') m.y) with t | ⟨p, rest⟩
  · rw [run, cepe, hd] at h
    exact absurd h (by simp)
  · obtain ⟨rfl, rfl⟩ := hm.token'.destination_ups hd
    rw [← run_eq hs hroot hm hd]
    exact h

/-- The request names the source when what follows it is clean. -/
theorem Source.names (h : m.Source i l) (hclean : EndsClean m.e m.x) : Names m.fs m.read_request i :=
  ⟨h.held, h.name, h.ext.trans (endsClean_iff.mpr hclean).symm⟩

/-- The entries with the name of the source have its extension. -/
theorem Source.not_named (hs : Inv m.fs) (h : m.Source i l) (hclean : ¬ EndsClean m.e m.x) :
    ¬ ∃ j, Names m.fs m.read_request j := by
  rintro ⟨j, hj⟩
  obtain rfl := hs.names hj.held h.held (hj.name.trans h.name.symm)
  exact hclean (endsClean_iff.mp (hj.ext.symm.trans h.ext))

theorem read_into_of_read {size : ℕ} {s : Fs} {r : FAT32DriverRequest} {code : ℤ}
    (h : ∀ buf, read s { r with buf := buf } = .ok (code, buf)) : read_into size s r = .ok (code, r.buf) := by
  rw [read_into, stores_at, h, h, h r.buf]
  simp

theorem read_size_zero {s : Fs} {r : FAT32DriverRequest} (hname : r.name ≠ 0) (hsize : r.buffer_size = 0) :
    read s r = .ok (1, r.buf) := by
  rw [read, if_neg (sameBytes_iff.not.mpr hname), if_pos hsize]

/-- Nothing is read when no entry has the key. -/
theorem read_none (hs : Inv m.fs) (hm : m.Ok) (h : ¬ ∃ j, Names m.fs m.read_request j) :
    ∃ code buf, code ≠ 0 ∧ read_into m.size.toNat m.fs m.read_request = .ok (code, buf) := by
  by_cases hsize : m.size = 0
  · exact ⟨1, _, by decide, read_into_of_read fun buf => read_size_zero hm.token.padded_ne_zero hsize⟩
  · refine ⟨3, _, by decide, read_into_of_read fun buf => ?_⟩
    refine read_unnamed (r := { m.read_request with buf := buf }) hs.wellFormed (hm.valid.cluster_live 0)
      hm.token.padded_ne_zero hsize ?_
    rintro ⟨j, hj⟩
    exact h ⟨j, hj.held, hj.name, hj.ext⟩

/-- The buffer is not read to, or read to without overrun, but is too large. -/
def ReadFails (l : List ℕ) : Prop := ¬ EndsClean m.e m.x ∨ m.size = 0 ∨ l.length < m.size.toNat / 2048

theorem read_source_refused (hs : Inv m.fs) (hm : m.Ok) (h : m.Source i l) (hfails : m.ReadFails l) :
    ∃ code buf, code ≠ 0 ∧ read_into m.size.toNat m.fs m.read_request = .ok (code, buf) := by
  by_cases hclean : EndsClean m.e m.x
  · by_cases hsize : m.size = 0
    · exact ⟨1, _, by decide, read_into_of_read fun buf => read_size_zero hm.token.padded_ne_zero hsize⟩
    · have hlong := (hfails.resolve_left (not_not.mpr hclean)).resolve_left hsize
      have hl := (h.sound hs).ownChain
      have hread := read_named hs.wellFormed hm.token.padded_ne_zero hsize (h.names hclean) hl
      have hinto := read_into_named hs.wellFormed hm.token.padded_ne_zero hsize
        (h.names hclean) hl m.size.toNat
      have hcopied : copied m.read_request l * 2048 ≤ m.size.toNat := by
        rw [copied, read_request_size]
        omega
      rw [if_neg (not_lt.mpr hcopied), hread, read_request_size, if_neg (not_le.mpr hlong)] at hinto
      exact ⟨_, _, by decide, hinto⟩
  · exact read_none hs hm (h.not_named hs hclean)

/-- The buffer is a whole number of clusters, or larger than the source needs. -/
def Fits (l : List ℕ) : Prop := m.size.toNat % 2048 = 0 ∨ l.length < clustersFor m.size.toNat

/-- **The source is read**, unless that overruns the buffer. -/
theorem read_source (hs : Inv m.fs) (hm : m.Ok) (h : m.Source i l) (hreads : ¬ m.ReadFails l) :
    (m.Fits l → read_into m.size.toNat m.fs m.read_request =
      .ok (0, copyChain m.fs.disk l (copied m.read_request l) 0 m.uninitialised.buffer)) ∧
    (¬ m.Fits l → read_into m.size.toNat m.fs m.read_request = .error .outOfBounds) := by
  obtain ⟨hclean, hrest⟩ := not_or.mp hreads
  obtain ⟨hsize, hshort⟩ := not_or.mp hrest
  have hl := (h.sound hs).ownChain
  have hlen : l.length ≤ 512 := hl.chain.length_le fun k hk => (hl.bounds k hk).2
  obtain ⟨hin, hout⟩ := copied_cases m.read_request hlen
  have hread := read_named hs.wellFormed hm.token.padded_ne_zero hsize (h.names (not_not.mp hclean)) hl
  rw [read_request_size] at hread hin hout
  rw [if_pos (not_lt.mp hshort)] at hread
  rw [read_into_named hs.wellFormed hm.token.padded_ne_zero hsize (h.names (not_not.mp hclean)) hl]
  constructor
  · intro hfits
    rw [if_neg (not_lt.mpr (hin hfits)), hread]
    rfl
  · intro hfits
    obtain ⟨hpart, -⟩ := not_or.mp hfits
    rw [hout hfits, clustersFor, if_pos (by omega)]

/-! ### The destination -/

variable (m) in
/-- The request for the destination. -/
def put_request (buffer : Buffer) (size : UInt32) : FAT32DriverRequest where
  buf := buffer
  name := padded m.n'
  ext := fun a : Fin 3 => typed m.e' m.y a
  parent_cluster_number := m.st.cluster m.k
  buffer_size := size

/-- The second half of `cepe`. -/
def put (m : Copy) (fuel : ℕ) (buffer : Buffer) : Except Trap (Option String × Fs) :=
  put_copy fuel m.uninitialised.newDir m.fs buffer m.size (typed (tokenText m.n' m.e') m.y) (m.st.cluster m.k)

theorem Ok.parent_live (hm : m.Ok) : Live m.fs m.parent := hm.valid.cluster_live m.k

/-- The entry that is deleted. -/
theorem Deletes.delete (hs : Inv m.fs) (h : m.Deletes j) : ∃ s₁ l,
    delete 512 m.fs (m.put_request (fun _ => 0) 0) = .ok (0, s₁) ∧ Cleared m.fs s₁ m.parent j l := by
  obtain ⟨hheld, hname, hext, hempty⟩ := h
  have hscan : (tableAt m.fs m.parent j).attr = ATTR_SUBDIRECTORY →
      ¬ scan_folder (tableAt m.fs (tableAt m.fs m.parent j).cluster.toNat) > 1 := fun hattr => by
    rw [scan_folder_gt_one]
    exact hempty _ ⟨hheld, hattr, rfl⟩
  obtain ⟨s₁, l, hd, -, hcl⟩ := delete_held (r := m.put_request (fun _ => 0) 0) hs rfl hheld hname hext hscan
  exact ⟨s₁, l, hd, hcl⟩

/-- **The first call** clears the entry, or changes nothing. -/
theorem delete_inv (hs : Inv m.fs) (hm : m.Ok) {code : ℤ} {s₁ : Fs}
    (h : KeropOS.delete fuel m.fs (m.put_request (fun _ => 0) 0) = .ok (code, s₁)) :
    (code ≠ 0 ∧ s₁ = m.fs ∧ ∀ j, ¬ m.Deletes j) ∨
      (code = 0 ∧ ∃ j l, m.Deletes j ∧ Cleared m.fs s₁ m.parent j l) := by
  have hexec : exec fuel m.fs (.delete (m.put_request (fun _ => 0) 0)) = .ok (⟨code, fun _ => 0⟩, s₁) := by
    rw [exec, h]
    rfl
  have hlegal : Legal m.fs (.delete (m.put_request (fun _ => 0) 0)) := hm.parent_live
  rcases delete_legal hs hlegal hexec with ⟨hcode, rfl⟩ | ⟨hcode, j, l, hj, hcl, hscan⟩
  · refine .inl ⟨hcode, rfl, fun j hj => hcode ?_⟩
    obtain ⟨s₂, l, hd, -⟩ := hj.delete hs
    have hmax := (delete_mono h (Nat.le_max_left fuel 512)).symm.trans
      (delete_mono hd (Nat.le_max_right fuel 512))
    exact (Prod.mk.inj (Except.ok.inj hmax)).1
  · refine .inr ⟨hcode, j, l, ⟨hcl.held, hj.spec.2.1, hj.spec.2.2, fun c hc hone => ?_⟩, hcl⟩
    have := hscan hc.attr
    rw [scan_folder_gt_one] at this
    rw [← hc.cluster] at hone
    exact this hone

/-- **What the second half did** when it returned. -/
theorem put_inv (hs : Inv m.fs) (hm : m.Ok) (hsize : m.size ≠ 0) {buffer : Buffer}
    (h : m.put fuel buffer = .ok (text, s')) :
    ((∀ j, ¬ m.Deletes j) ∧ s' = m.fs) ∨ ∃ j l s₁, m.Deletes j ∧ Cleared m.fs s₁ m.parent j l ∧
      (Untouched s₁ s' ∨ ∃ n e cs data, Added s₁ s' m.parent n e cs data ∧
        Asked (m.put_request buffer m.size) e cs data) := by
  rw [put, put_copy, cepe_dest_key, hm.token'.short_file_key] at h
  dsimp only at h
  split at h
  · exact absurd h (by simp)
  · rename_i code s₁ hd
    rcases delete_inv hs hm hd with ⟨hcode, rfl, hnone⟩ | ⟨hcode, j, l, hj, hcl⟩
    · rw [if_pos hcode] at h
      exact .inl ⟨hnone, (Prod.mk.inj (Except.ok.inj h)).2.symm⟩
    · rw [if_neg (not_not.mpr hcode)] at h
      split at h
      · exact absurd h (by simp)
      · rename_i code' s₂ hw
        obtain rfl := (Prod.mk.inj (Except.ok.inj h)).2
        refine .inr ⟨j, l, s₁, hj, hcl, ?_⟩
        rcases write_live (r := m.put_request buffer m.size) (hcl.inv hs) (hcl.live_parent hs)
          (fun h0 => absurd h0 hsize) hw with ⟨-, hu⟩ | ⟨-, n, e, cs, data, -, ha, hask⟩
        · exact .inl hu
        · exact .inr ⟨n, e, cs, data, ha, hask⟩

/-- After the entry is cleared, there is nothing in the way of the `write`. -/
theorem write_after (hs : Inv m.fs) (hm : m.Ok) {s₁ : Fs} (hj : m.Deletes j)
    (hcl : Cleared m.fs s₁ m.parent j l)
    (hok : SizeOk m.size) (hcells : clustersFor m.size.toNat ≤ (emptyCells m.fs.cluster_map).length)
    (buffer : Buffer) :
    ∃ s', KeropOS.write m.uninitialised.newDir s₁ (m.put_request buffer m.size) = .ok (0, s') := by
  have hs₁ := hcl.inv hs
  have hlive := hcl.live_parent hs
  have hb := hs₁.live_bounds hlive
  have hidx : clusterIndex (m.put_request buffer m.size).parent_cluster_number = m.parent :=
    clusterIndex_of_lt hb.2
  have htable := hcl.tableAt_live hs hm.parent_live (hcl.live_cases hs hlive).2
  rw [if_pos rfl] at htable
  apply write_ok
  · exact hm.token'.padded_ne_zero
  · exact hb.1
  · rw [hidx]
    intro i hi hn
    have hu : (tableAt s₁ m.parent i).InUse := by
      by_contra hu
      rw [hs₁.free hlive hu] at hn
      exact hm.token'.padded_ne_zero hn.symm
    obtain ⟨hheld, -, hne⟩ := hcl.held_cases hs ⟨hlive, hi, hu⟩
    rw [hcl.tableAt_held hs ⟨hlive, hi, hu⟩] at hn
    exact hne ⟨rfl, hs.names hheld hj.1 (hn.trans hj.2.1.symm)⟩
  · rw [hidx, htable]
    exact ⟨j, by rw [Function.update_self]; exact not_inUse_zero⟩
  · exact .inr hok
  · show (if m.size = 0 then 1 else n_cluster m.size) ≤ _
    rw [if_neg hok.ne_zero]
    exact (n_cluster_eq hok).le.trans (hcells.trans hcl.length_emptyCells_le)

/-- **The second half returns**, and replaces the entry. -/
theorem put_returns (hs : Inv m.fs) (hm : m.Ok) (hj : m.Deletes j) (hok : SizeOk m.size)
    (hcells : clustersFor m.size.toNat ≤ (emptyCells m.fs.cluster_map).length) (hfuel : 512 ≤ fuel)
    (buffer : Buffer) :
    ∃ s' l s₁ n e cs data, m.put fuel buffer = .ok (none, s') ∧ Cleared m.fs s₁ m.parent j l ∧
      Added s₁ s' m.parent n e cs data ∧ Asked (m.put_request buffer m.size) e cs data := by
  obtain ⟨s₁, l, hd, hcl⟩ := hj.delete hs
  obtain ⟨s', hw⟩ := write_after hs hm hj hcl hok hcells buffer
  have hput : m.put fuel buffer = .ok (none, s') := by
    rw [put, put_copy, cepe_dest_key, hm.token'.short_file_key]
    dsimp only
    have hd' := delete_mono hd hfuel
    unfold put_request at hd' hw
    rw [hd']
    dsimp only
    rw [if_neg (by decide), hw]
    rfl
  rcases write_live (r := m.put_request buffer m.size) (hcl.inv hs) (hcl.live_parent hs)
    (fun h0 => absurd h0 hok.ne_zero) hw with ⟨hr, -⟩ | ⟨-, n, e, cs, data, -, ha, hask⟩
  · exact absurd rfl hr.code_ne_zero
  · exact ⟨s', l, s₁, n, e, cs, data, hput, hcl, ha, hask⟩

/-- With nothing to delete, the second half changes nothing. -/
theorem put_refuses (hs : Inv m.fs) (hm : m.Ok) (hnone : ∀ j, ¬ m.Deletes j) (hfuel : 512 ≤ fuel)
    (buffer : Buffer) :
    ∃ text, m.put fuel buffer = .ok (text, m.fs) := by
  have hd : ∃ code, code ≠ 0 ∧ KeropOS.delete fuel m.fs (m.put_request (fun _ => 0) 0) =
    .ok (code, m.fs) := by
    rcases delete_legal_eq (r := m.put_request (fun _ => 0) 0) hs hm.parent_live with
      ⟨code, hc, hd⟩ | ⟨s₁, i, l, hd, -⟩
    · exact ⟨code, hc, delete_mono hd hfuel⟩
    · rcases delete_inv hs hm hd with ⟨hc, -⟩ | ⟨-, j, l, hj, -⟩
      · exact absurd rfl hc
      · exact absurd hj (hnone j)
  obtain ⟨code, hc, hd⟩ := hd
  refine ⟨puts "FAILED TO DELETE FOLDER\n" 24, ?_⟩
  rw [put, put_copy, cepe_dest_key, hm.token'.short_file_key]
  unfold put_request at hd
  dsimp only
  rw [hd]
  exact if_pos hc

/-! ### The outcome -/

/-- A name stands for one entry of a directory. -/
theorem present_unique {s : Fs} (hs : Inv s) {p : ℕ} {name : Bytes 8} {ext ext' : Bytes 3} {node node' : Node}
    (h : Present s ⟨p, name, ext⟩ node) (h' : Present s ⟨p, name, ext'⟩ node') :
    ext = ext' ∧ node = node' := by
  obtain ⟨i, hp, hn, he, hh⟩ := h
  obtain ⟨j, hq, hn', he', hh'⟩ := h'
  obtain rfl := hs.names hp hq (hn.trans hn'.symm)
  exact ⟨he.symm.trans he', hh.unique hh'⟩

theorem Source.present (h : m.Source i l) : Present m.fs m.source (.file (fileBytes m.fs m.cur i l)) :=
  ⟨i, h.held, h.name, h.ext, h.file, l, h.chain, rfl⟩

/-- Without the `write`, the destination is gone. -/
theorem emptied_not_present (hs : Inv m.fs) {s₁ : Fs} {node : Node} (hj : m.Deletes j)
    (hcl : Cleared m.fs s₁ m.parent j l) (hu : Untouched s₁ s') : ¬ Present s' m.dest node := by
  rintro ⟨i, hp, hn, -⟩
  have hp₁ := hu.symm.held hp
  obtain ⟨hheld, -, hne⟩ := hcl.held_cases hs hp₁
  rw [hu.tableAt, hcl.tableAt_held hs hp₁] at hn
  exact hne ⟨rfl, hs.names hheld hj.1 (hn.trans hj.2.1.symm)⟩

/-- The directory of the source is not below what is deleted. -/
def Survives (m : Copy) (j : Fin 64) : Prop := ∀ c, Child m.fs m.parent j c → ¬ Below m.fs c m.cur

section

variable {s₁ : Fs} {n : Fin 64} {e : FAT32DirectoryEntry} {cs l' : List ℕ} {data : ℕ → Cluster}
    {buffer : Buffer}

/-- The destination has the bytes of the buffer, under the extension written. -/
theorem dest_present_iff (hs : Inv m.fs) (hsize : m.size ≠ 0) (hcl : Cleared m.fs s₁ m.parent j l)
    (ha : Added s₁ s' m.parent n e cs data) (hask : Asked (m.put_request buffer m.size) e cs data) :
    Present s' m.dest (.file bytes) ↔ EndsClean m.e' m.y ∧ firstBytes m.size.toNat buffer = bytes := by
  have hs₁ := hcl.inv hs
  have hnew := ha.present_new hs₁ hask rfl
  rw [FAT32DriverRequest.made, if_neg (show (m.put_request buffer m.size).buffer_size ≠ 0 from hsize)] at hnew
  rw [← endsClean_iff]
  constructor
  · intro hp
    obtain ⟨hext, hnode⟩ := present_unique (ha.inv hs₁) hnew hp
    exact ⟨hext, Node.file.inj hnode⟩
  · rintro ⟨hext, rfl⟩
    rw [dest, ← hext]
    exact hnew

/-- The source stays unless it is deleted with the destination. -/
theorem source_present_iff (hs : Inv m.fs) (hsrc : m.Source i l) (hj : m.Deletes j)
    (hcl : Cleared m.fs s₁ m.parent j l') (ha : Added s₁ s' m.parent n e cs data)
    (hask : Asked (m.put_request buffer m.size) e cs data) (hne : ¬ (m.cur = m.parent ∧ i = j)) :
    Present s' m.source (.file (fileBytes m.fs m.cur i l)) ↔ m.Survives j := by
  have hs₁ := hcl.inv hs
  have hlive : Live s₁ m.cur ↔ m.Survives j := (hcl.live_iff hs).trans (and_iff_right hsrc.held.live)
  rw [← hlive]
  constructor
  · rintro ⟨i', hp, hn, -⟩
    rcases ha.held_cases hs₁ hp with hp₁ | ⟨hparent, rfl⟩
    · exact hp₁.live
    · -- the new entry has the name of the one deleted
      refine absurd ⟨hparent, ?_⟩ hne
      have hcur : m.source.parent = m.cur := rfl
      rw [hcur] at hparent hn
      rw [hparent, ha.tableAt_new hs₁, hask.name] at hn
      have hheld := hsrc.held
      have hname := hsrc.name
      change Held m.fs m.cur i at hheld
      change (tableAt m.fs m.cur i).name = padded m.n at hname
      rw [hparent] at hheld hname
      exact hs.names hheld hj.1 (hname.trans (hn.symm.trans hj.2.1.symm))
  · intro hl₁
    have hheld₁ : Held s₁ m.cur i := (hcl.held_iff hs).mpr ⟨hsrc.held, hl₁, hne⟩
    have htable : tableAt s' m.cur i = tableAt m.fs m.cur i :=
      (ha.tableAt_held hs₁ hl₁ hheld₁.inUse).trans (hcl.tableAt_held hs hheld₁)
    obtain ⟨i', hi', hn, he, hh⟩ := hsrc.present
    obtain rfl := hs.names hi' hsrc.held (hn.trans hsrc.name.symm)
    exact ⟨i', ha.held_of_held hs₁ hheld₁, htable ▸ hn, htable ▸ he,
      (ha.holds_iff hs₁ hheld₁).mpr ((hcl.holds_iff hs hheld₁).mpr hh)⟩

/-- **What the two calls make of the files.** -/
theorem replaced_iff (hs : Inv m.fs) (hsrc : m.Source i l) (hsize : m.size ≠ 0) (hj : m.Deletes j)
    (hcl : Cleared m.fs s₁ m.parent j l') (ha : Added s₁ s' m.parent n e cs data)
    (hask : Asked (m.put_request buffer m.size) e cs data) :
    (Present s' m.dest (.file (fileBytes m.fs m.cur i l)) ∧
      Present s' m.source (.file (fileBytes m.fs m.cur i l))) ↔
      EndsClean m.e' m.y ∧ firstBytes m.size.toNat buffer = fileBytes m.fs m.cur i l ∧ m.Survives j := by
  rw [dest_present_iff hs hsize hcl ha hask, and_assoc]
  refine and_congr_right fun hclean => and_congr_right fun hbytes => ?_
  by_cases hne : m.cur = m.parent ∧ i = j
  · -- the source is the destination
    obtain ⟨hcur, rfl⟩ := hne
    have hfile : (tableAt m.fs m.cur i).attr ≠ ATTR_SUBDIRECTORY := hsrc.file
    have hsurvives : m.Survives i := fun c hc => absurd (hcur ▸ hc.attr) hfile
    have hsame : m.source = m.dest := by
      have hname : (tableAt m.fs m.cur i).name = padded m.n := hsrc.name
      have hext : (tableAt m.fs m.cur i).ext = padded m.e := hsrc.ext
      rw [hcur] at hname hext
      rw [source, dest, hcur, ← hname, ← hext, hj.2.1, hj.2.2.1, endsClean_iff.mpr hclean]
    refine iff_of_true ?_ hsurvives
    rw [hsame]
    exact (dest_present_iff hs hsize hcl ha hask).mpr ⟨hclean, hbytes⟩
  · exact source_present_iff hs hsrc hj hcl ha hask hne

end

/-! ### When the destination becomes a copy -/

/-- The buffer has the size of the source, a whole number of clusters; the destination can be deleted, and the
source is not deleted with it. -/
structure Replaces (m : Copy) (i : Fin 64) : Prop where
  clean : EndsClean m.e m.x
  clean' : EndsClean m.e' m.y
  size : m.size = (tableAt m.fs m.cur i).filesize
  whole : (tableAt m.fs m.cur i).filesize.toNat % 2048 = 0
  target : ∃ j, m.Deletes j ∧ m.Survives j

/-- `cepe` gives up before it deletes anything. -/
def GivesUp (m : Copy) (l : List ℕ) : Prop := m.ReadFails l ∨ (m.Fits l ∧ ¬ EndsClean m.e' m.y)

/-- The bytes read with the size of the source. -/
theorem firstBytes_read (hs : Inv m.fs) (hsrc : m.Source i l)
    (hsize : m.size = (tableAt m.fs m.cur i).filesize)
    (buffer : Buffer) : firstBytes m.size.toNat (copyChain m.fs.disk l (copied m.read_request l) 0 buffer) =
      fileBytes m.fs m.cur i l := by
  have hfile : IsFile (tableAt m.fs m.cur i) l.length := hsrc.isFile hs
  rw [hfile.copied (read_request_size.trans hsize), hsize, fileBytes]
  exact copyChain_firstBytes _ hfile.cells buffer

theorem size_of_firstBytes {buffer : Buffer} (h : firstBytes m.size.toNat buffer = fileBytes m.fs m.cur i l) :
    m.size = (tableAt m.fs m.cur i).filesize := by
  have hlen := congrArg List.length h
  rw [length_fileBytes, firstBytes, List.length_map, List.length_range] at hlen
  exact UInt32.toNat_inj.mp hlen

/-- A destination that is there can be deleted, when what follows its name is clean. -/
theorem deletes_of_present (hclean : EndsClean m.e' m.y) (h : Present m.fs m.dest (.file bytes)) :
    ∃ j, m.Deletes j := by
  obtain ⟨j, hp, hn, he, hfile, -⟩ := h
  exact ⟨j, hp, hn, he.trans (endsClean_iff.mpr hclean).symm, fun c hc => absurd hc.attr hfile⟩

theorem not_deletes_of_present (hs : Inv m.fs) (hclean : ¬ EndsClean m.e' m.y)
    (h : Present m.fs m.dest (.file bytes)) : ¬ m.Deletes j := by
  rintro ⟨hj, hn, he, -⟩
  obtain ⟨j', hp, hn', he', -⟩ := h
  obtain rfl := hs.names hj hp (hn.trans hn'.symm)
  exact hclean (endsClean_iff.mp (he.symm.trans he'))

/-! ### The call -/

/-- The call behind its arguments. -/
def rest (m : Copy) (fuel : ℕ) : Except Trap (Option String × Fs) :=
  copy_file fuel m.uninitialised m.fs (padded m.n, fun a : Fin 3 => typed m.e m.x a) m.size
    (typed (tokenText m.n' m.e') m.y) m.st m.k

theorem rest_eq (fuel : ℕ) : m.rest fuel =
    match read_into m.size.toNat m.fs m.read_request with
    | .error t => .error t
    | .ok (retcode, buffer) =>
      if retcode ≠ 0 then .ok (puts "FAILED TO READ SRCFILE\n" 23, m.fs) else m.put fuel buffer := rfl

/-- A source that cannot be read changes nothing. -/
theorem rest_refused {code : ℤ} {buf : Buffer} (hcode : code ≠ 0)
    (hread : read_into m.size.toNat m.fs m.read_request = .ok (code, buf)) (fuel : ℕ) :
    m.rest fuel = .ok (puts "FAILED TO READ SRCFILE\n" 23, m.fs) := by
  rw [rest_eq, hread]
  exact if_pos hcode

theorem rest_read {buf : Buffer} (hread : read_into m.size.toNat m.fs m.read_request = .ok (0, buf))
    (fuel : ℕ) :
    m.rest fuel = m.put fuel buf := by
  rw [rest_eq, hread]
  rfl

/-- With fuel enough, the call is what comes behind its arguments. -/
theorem run_eq_rest (hs : Inv m.fs) (hroot : RootSelf m.fs) (hm : m.Ok) :
    ∃ fuel, 512 ≤ fuel ∧ m.run fuel = m.rest fuel := by
  refine ⟨512 + (ups m.k ++ tokenText m.n' m.e').length, Nat.le_add_right _ _, run_eq hs hroot hm ?_⟩
  exact hm.token'.destination_ups_returns (by omega)

theorem copies_of_unchanged (hsrc : m.Source i l)
    (hdest : Present m.fs m.dest (.file (fileBytes m.fs m.cur i l)))
    (h : m.run fuel = .ok (text, m.fs)) : m.Copies (fileBytes m.fs m.cur i l) :=
  ⟨fuel, text, m.fs, h, hdest, hsrc.present⟩

theorem copies_of_replaces (hs : Inv m.fs) (hroot : RootSelf m.fs) (hm : m.Ok) (hsrc : m.Source i l)
    (hcells : clustersFor (tableAt m.fs m.cur i).filesize.toNat ≤ (emptyCells m.fs.cluster_map).length)
    (h : m.Replaces i) : m.Copies (fileBytes m.fs m.cur i l) := by
  obtain ⟨hclean, hclean', hsize, hwhole, j, hj, hsurvives⟩ := h
  have hfile : IsFile (tableAt m.fs m.cur i) l.length := hsrc.isFile hs
  have hok : SizeOk m.size := hsize ▸ hfile.size
  obtain ⟨fuel, hfuel, hrun⟩ := run_eq_rest hs hroot hm
  have hreads : ¬ m.ReadFails l := by
    have hcells := hfile.cells
    unfold clustersFor at hcells
    rintro (hx | h0 | hlong)
    · exact hx hclean
    · exact hok.ne_zero h0
    · rw [hsize] at hlong
      omega
  have hread := (read_source hs hm hsrc hreads).1 (.inl (hsize ▸ hwhole))
  obtain ⟨s', l', s₁, n, e, cs, data, hput, hcl, ha, hask⟩ :=
    put_returns hs hm hj hok (hsize ▸ hcells) hfuel
      (copyChain m.fs.disk l (copied m.read_request l) 0 m.uninitialised.buffer)
  refine ⟨fuel, none, s', hrun.trans ((rest_read hread fuel).trans hput), ?_⟩
  exact (replaced_iff hs hsrc hok.ne_zero hj hcl ha hask).mpr ⟨hclean', firstBytes_read hs hsrc hsize _,
    hsurvives⟩

theorem copies_of_givesUp (hs : Inv m.fs) (hroot : RootSelf m.fs) (hm : m.Ok) (hsrc : m.Source i l)
    (hdest : Present m.fs m.dest (.file (fileBytes m.fs m.cur i l))) (h : m.GivesUp l) :
    m.Copies (fileBytes m.fs m.cur i l) := by
  obtain ⟨fuel, hfuel, hrun⟩ := run_eq_rest hs hroot hm
  by_cases hfails : m.ReadFails l
  · obtain ⟨code, buf, hcode, hread⟩ := read_source_refused hs hm hsrc hfails
    exact copies_of_unchanged hsrc hdest (hrun.trans (rest_refused hcode hread fuel))
  · obtain ⟨hfits, hclean'⟩ := h.resolve_left hfails
    have hread := (read_source hs hm hsrc hfails).1 hfits
    obtain ⟨text, hput⟩ := put_refuses hs hm (fun j => not_deletes_of_present hs hclean' hdest) hfuel
      (copyChain m.fs.disk l (copied m.read_request l) 0 m.uninitialised.buffer)
    exact copies_of_unchanged hsrc hdest (hrun.trans ((rest_read hread fuel).trans hput))

/-- **When the destination becomes a copy of the source**, or is one and is left alone. -/
theorem copies_iff (hs : Inv m.fs) (hroot : RootSelf m.fs) (hm : m.Ok) (hsrc : m.Source i l)
    (hcells : clustersFor (tableAt m.fs m.cur i).filesize.toNat ≤ (emptyCells m.fs.cluster_map).length) :
    m.Copies (fileBytes m.fs m.cur i l) ↔
      m.Replaces i ∨ (Present m.fs m.dest (.file (fileBytes m.fs m.cur i l)) ∧ m.GivesUp l) := by
  constructor
  · rintro ⟨fuel, text, s', hrun, hdest, hsource⟩
    have hrest : m.rest fuel = .ok (text, s') := run_inv hs hroot hm hrun
    by_cases hfails : m.ReadFails l
    · obtain ⟨code, buf, hcode, hread⟩ := read_source_refused hs hm hsrc hfails
      rw [rest_refused hcode hread] at hrest
      obtain rfl := (Prod.mk.inj (Except.ok.inj hrest)).2
      exact .inr ⟨hdest, .inl hfails⟩
    · obtain ⟨hfit, htrap⟩ := read_source hs hm hsrc hfails
      by_cases hfits : m.Fits l
      · rw [rest_read (hfit hfits)] at hrest
        obtain ⟨hclean, hsize0⟩ := not_or.mp hfails
        rcases put_inv hs hm (not_or.mp hsize0).1 hrest with ⟨hnone, rfl⟩ | ⟨j, l', s₁, hj, hcl, hwrote⟩
        · refine .inr ⟨hdest, .inr ⟨hfits, fun hclean' => ?_⟩⟩
          obtain ⟨j, hj⟩ := deletes_of_present hclean' hdest
          exact hnone j hj
        · rcases hwrote with hu | ⟨n, e, cs, data, ha, hask⟩
          · exact absurd hdest (emptied_not_present hs hj hcl hu)
          · obtain ⟨hclean', hbytes, hsurvives⟩ :=
              (replaced_iff hs hsrc (not_or.mp hsize0).1 hj hcl ha hask).mp ⟨hdest, hsource⟩
            have hsize := size_of_firstBytes hbytes
            refine .inl ⟨not_not.mp hclean, hclean', hsize, ?_, j, hj, hsurvives⟩
            have hlen : l.length = clustersFor (tableAt m.fs m.cur i).filesize.toNat := (hsrc.isFile hs).cells
            rw [Fits, hsize] at hfits
            exact hfits.resolve_right fun hlt => absurd hlt (by omega)
      · rw [rest_eq, htrap hfits] at hrest
        exact absurd hrest (by simp)
  · rintro (h | ⟨hdest, h⟩)
    · exact copies_of_replaces hs hroot hm hsrc hcells h
    · exact copies_of_givesUp hs hroot hm hsrc hdest h

/-- No entry of the current directory has the name and the extension of the source. -/
def Missing (m : Copy) : Prop := ∀ i, Held m.fs m.cur i → (tableAt m.fs m.cur i).name = padded m.n →
  (tableAt m.fs m.cur i).ext ≠ padded m.e

/-- A source that is not there. -/
theorem leaves_of_missing (hs : Inv m.fs) (hroot : RootSelf m.fs) (hm : m.Ok) (hclean : EndsClean m.e m.x)
    (h : m.Missing) : m.Leaves := by
  obtain ⟨fuel, -, hrun⟩ := run_eq_rest hs hroot hm
  obtain ⟨code, buf, hcode, hread⟩ := read_none hs hm fun ⟨j, hj⟩ =>
    h j hj.held hj.name (hj.ext.trans (endsClean_iff.mpr hclean))
  exact ⟨fuel, _, hrun.trans (rest_refused hcode hread fuel)⟩

end Copy

/-- **When `cp` copies**: the bytes behind the two arguments are clean, the last entry that passes for the source
has its size, which is a whole number of clusters, and the destination is there to be deleted, and not a folder
with the source in it; or the destination holds the bytes already, and `cp` gives up. A source that is not
there changes nothing. -/
theorem cp_copies_iff (d : Disk) (es : List (FAT32DirectoryTable × Call × Reply)) (m : Copy)
    (hrun : Run StepOn (boot d) es m.fs) (hclean : ∀ e ∈ es, CleanStack e) (hm : m.Ok) :
    (∀ i l, m.Source i l →
      clustersFor (tableAt m.fs m.cur i).filesize.toNat ≤ (emptyCells m.fs.cluster_map).length →
      (m.Copies (fileBytes m.fs m.cur i l) ↔
        m.Replaces i ∨ (Present m.fs m.dest (.file (fileBytes m.fs m.cur i l)) ∧ m.GivesUp l))) ∧
    (m.Missing → EndsClean m.e m.x → m.Leaves) := by
  obtain ⟨hs, hroot⟩ := rootSelf_of_runOn hrun hclean
  exact ⟨fun i l hsrc hcells => Copy.copies_iff hs hroot hm hsrc hcells,
    fun hmissing hx => Copy.leaves_of_missing hs hroot hm hx hmissing⟩

/-! ## Two files -/

/-- `cp n.txt n'.txt` in the root. -/
def copyTexts (s : Fs) (n n' : List UInt8) : Copy where
  fs := s
  st := shellStack 0
  uninitialised := ⟨0, 0, 0⟩
  n := n
  e := text
  x := 0
  k := 0
  n' := n'
  e' := text
  y := 0

theorem copyTexts_ok (s : Fs) {n n' : List UInt8} (h : Token n text) (h' : Token n' text) :
    (copyTexts s n n').Ok where
  valid := validStack_shellStack s 0
  token := h
  token' := h'
  above := Nat.one_pos

theorem endsClean_text : EndsClean text 0 := fun _ _ => rfl

section

variable {s s' : Fs} {c : UInt32} {j k : Fin 64} {n : List UInt8} {size : UInt32}

theorem sizeOk_cluster : SizeOk 2048 := ⟨by decide, by decide⟩

/-- In the root after the first file, only slot 1 has an entry. -/
theorem held_slot_one (htable : tableAt s 2 =
    Function.update (tableAt (boot 0) 2) 1 (fileEntry (padded n) (padded text) size c))
    (h : Held s 2 j) : j = 1 := by
  by_contra hj
  have hu := h.inUse
  rw [htable, Function.update_of_ne hj, boot_slot 0 h.slot] at hu
  exact not_inUse_zero hu

/-- An entry that passes has the first character. -/
theorem PassesLoosely.first {t : FAT32DirectoryTable} {name : Bytes 8} (h : PassesLoosely t name k) :
    (t k).name 0 = name 0 := by
  rcases h with ⟨m, hm, -, hpre⟩ | ⟨hname, -⟩
  · exact hpre 0 (Fin.pos_iff_ne_zero.mpr hm)
  · rw [hname]

end

/-- `cp a.txt b.txt`, of one cluster and of one byte. -/
theorem cp_copies_cluster : ∃ es s l, Run StepOn (boot 0) es s ∧
    (copyTexts s [97] [98]).Copies (fileBytes s 2 1 l) := by
  obtain ⟨q₁, s₁, c₁, l, hstep₁, hfile₁, htable₁, hcells₁⟩ := boot_textFile token_a sizeOk_cluster
  have hrun₁ := Run.single hstep₁
  obtain ⟨hs₁, -⟩ := rootSelf_of_runOn hrun₁ (clean_single _ _)
  have hcluster : clustersFor (2048 : UInt32).toNat = 1 := by decide
  rw [hcluster] at hcells₁
  obtain ⟨q₂, s, k, c, hstep₂, hk0, hk1, hheld, hfile, htable, hcells⟩ :=
    second_text hs₁ hfile₁ htable₁ (by omega)
  have hrun := hrun₁.snoc hstep₂.on
  have hclean : ∀ e ∈ [((0 : FAT32DirectoryTable), Call.write (textFile [97] 2048), q₁)] ++
      [(0, Call.write (textFile [98] 1), q₂)], CleanStack e := by
    intro e he
    rcases List.mem_append.mp he with he | he
    · exact clean_single _ _ e he
    · exact clean_single _ _ e he
  have hone : tableAt s 2 1 = fileEntry (padded [97]) (padded text) 2048 c₁ := by
    rw [htable, Function.update_of_ne (Ne.symm hk1), htable₁, Function.update_self]
  have hk : tableAt s 2 k = fileEntry (padded [98]) (padded text) 1 c := by rw [htable, Function.update_self]
  -- the other names start with another character
  have honly : ∀ j, PassesLoosely (tableAt s 2) (padded [97]) j → j = 1 := fun j hj => by
    by_contra h1
    have hfirst := hj.first
    by_cases hjk : j = k
    · rw [hjk, hk] at hfirst
      exact absurd (show (98 : UInt8) = 97 from hfirst) (by decide)
    · rw [htable, Function.update_of_ne hjk, htable₁, Function.update_of_ne h1] at hfirst
      by_cases h0 : j = 0
      · rw [h0, boot_root, Function.update_self] at hfirst
        exact absurd (show (82 : UInt8) = 97 from hfirst) (by decide)
      · rw [boot_slot 0 h0] at hfirst
        exact absurd (show (0 : UInt8) = 97 from hfirst) (by decide)
  have hpass : PassesLoosely (tableAt s 2) (padded [97]) 1 := by
    refine .inl ⟨1, by decide, ?_, fun a _ => ?_⟩
    · rw [hone]
      rfl
    · rw [hone]
      rfl
  have hsize : (copyTexts s [97] [98]).size = (tableAt s 2 1).filesize :=
    lastSize_eq 0 hpass fun j hj hpass' => absurd (honly j hpass') (ne_of_gt hj)
  have hdelete : (copyTexts s [97] [98]).Deletes k := by
    refine ⟨hheld, ?_, ?_, fun d hd => ?_⟩
    · exact congrArg FAT32DirectoryEntry.name hk
    · exact (congrArg FAT32DirectoryEntry.ext hk).trans (endsClean_iff.mpr endsClean_text).symm
    · exact absurd hd.attr (hk ▸ attr_fileEntry _ _ _ _)
  refine ⟨_, s, l, hrun, ((cp_copies_iff 0 _ (copyTexts s [97] [98]) hrun hclean
    (copyTexts_ok s token_a token_b)).1 1 l
    hfile ?_).mpr (.inl ⟨endsClean_text, endsClean_text, hsize, ?_, k, hdelete, fun d hd => ?_⟩)⟩
  · show clustersFor (tableAt s 2 1).filesize.toNat ≤ _
    rw [hone]
    exact hcluster.le.trans (show 1 ≤ (emptyCells s.cluster_map).length by omega)
  · show (tableAt s 2 1).filesize.toNat % 2048 = 0
    rw [hone]
    exact (by decide : (2048 : UInt32).toNat % 2048 = 0)
  · exact absurd hd.attr (hk ▸ attr_fileEntry _ _ _ _)

/-- `cp a.txt b.txt`, where `b.txt` is not there. -/
theorem cp_needs_destination : ∃ es s l, Run StepOn (boot 0) es s ∧ (∀ e ∈ es, CleanStack e) ∧
    (copyTexts s [97] [98]).Ok ∧ (copyTexts s [97] [98]).Source 1 l ∧ (∃ j, ¬ (tableAt s 2 j).InUse) ∧
    clustersFor (tableAt s 2 1).filesize.toNat ≤ (emptyCells s.cluster_map).length ∧
    ¬ (copyTexts s [97] [98]).Copies (fileBytes s 2 1 l) := by
  obtain ⟨reply, s, c, l, hstep, hfile, htable, hcells⟩ := boot_textFile token_a sizeOk_cluster
  have hrun := Run.single hstep
  obtain ⟨hs, hroot⟩ := rootSelf_of_runOn hrun (clean_single _ _)
  have hok := copyTexts_ok s token_a token_b
  have hone : tableAt s 2 1 = fileEntry (padded [97]) (padded text) 2048 c := by
    rw [htable, Function.update_self]
  have hcluster : clustersFor (2048 : UInt32).toNat = 1 := by decide
  have hfits : clustersFor (tableAt s 2 1).filesize.toNat ≤ (emptyCells s.cluster_map).length := by
    rw [hone]
    rw [hcluster] at hcells
    exact hcluster.le.trans (by omega)
  have hnone : ∀ j, Held s 2 j → (tableAt s 2 j).name ≠ padded [98] := fun j hj hn => by
    obtain rfl := held_slot_one htable hj
    rw [hone] at hn
    exact absurd (show (97 : UInt8) = 98 from congrFun hn 0) (by decide)
  refine ⟨_, s, l, hrun, clean_single _ _, hok, hfile, ⟨2, ?_⟩, hfits, fun hcopies => ?_⟩
  · rw [htable, Function.update_of_ne (by decide), boot_slot 0 (by decide)]
    exact not_inUse_zero
  · rcases (Copy.copies_iff (m := copyTexts s [97] [98]) hs hroot hok hfile hfits).mp hcopies with
      h | ⟨⟨j, hj, hn, -⟩, -⟩
    · obtain ⟨j, hj, -⟩ := h.target
      exact hnone j hj.1 hj.2.1
    · exact hnone j hj hn

end KeropOS
