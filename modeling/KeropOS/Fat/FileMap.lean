import KeropOS.Fat.Partition

/-!
# The file system as a finite map

* `Key`, `Node`, `FileMap`, `MapStep`: the map and what each call does to it;
* `Present`: the node a state holds under a key;
* **`map_step`**: every step of the driver is a step of the map;
* **`simulates_file_map`**: every run of the driver is a run of the map, and the map tells what
  `read` returns.
-/

namespace KeropOS

open Packed Linked Transition

/-! ## The map -/

/-- What names a file or folder. -/
structure Key where
  parent : ℕ
  name : Bytes 8
  ext : Bytes 3
  deriving DecidableEq

/-- What a key stands for. -/
inductive Node
  | file (bytes : List UInt8)
  | folder

/-- A finite map from keys to files and folders. -/
abbrev FileMap := Key → Option Node

/-- The key of a request. -/
def FAT32DriverRequest.key (r : FAT32DriverRequest) : Key := ⟨r.parent_cluster_number.toNat, r.name, r.ext⟩

/-- The first `n` bytes of a buffer. -/
def firstBytes (n : ℕ) (buf : Buffer) : List UInt8 := (List.range n).map buf

/-- The key and the node a `write` makes; a folder has no extension. -/
def FAT32DriverRequest.made (r : FAT32DriverRequest) : Key × Node :=
  if r.buffer_size = 0 then (⟨r.parent_cluster_number.toNat, r.name, 0⟩, .folder)
  else (r.key, .file (firstBytes r.buffer_size.toNat r.buf))

/-- What the map says about a `read`. -/
def ReadReply (m : FileMap) (r : FAT32DriverRequest) (reply : Reply) : Prop :=
  (∀ bytes, m r.key = some (.file bytes) → r.buffer_size.toNat = bytes.length →
    reply.code = 0 ∧ firstBytes bytes.length reply.buf = bytes) ∧
  (m r.key = none → r.buffer_size ≠ 0 → reply.code = 3)

/-- One call, on the map. -/
inductive MapStep : FileMap → Call × Reply → FileMap → Prop
  | made {m r reply} : reply.code = 0 → m r.made.1 = none →
      MapStep m (.write r, reply) (Function.update m r.made.1 (some r.made.2))
  | refused {m r reply} : reply.code ≠ 0 → MapStep m (.write r, reply) m
  | deleted {m r reply node} : reply.code = 0 → m r.key = some node →
      MapStep m (.delete r, reply) (Function.update m r.key none)
  | kept {m r reply} : reply.code ≠ 0 → MapStep m (.delete r, reply) m
  | read {m r reply} : ReadReply m r reply → MapStep m (.read r, reply) m
  | read_directory {m r reply} : MapStep m (.read_directory r, reply) m

/-! ## The map of a state -/

/-- Entry `i` of `p` is a file with these bytes, or a folder. -/
def Holds (s : Fs) (p : ℕ) (i : Fin 64) : Node → Prop
  | .file bytes => (tableAt s p i).attr ≠ ATTR_SUBDIRECTORY ∧ ∃ l, Chain s p i l ∧
      bytes = firstBytes (tableAt s p i).filesize.toNat (content s.disk l)
  | .folder => (tableAt s p i).attr = ATTR_SUBDIRECTORY

/-- A live entry has this key and this node. -/
def Present (s : Fs) (key : Key) (node : Node) : Prop :=
  ∃ i, Held s key.parent i ∧ (tableAt s key.parent i).name = key.name ∧
    (tableAt s key.parent i).ext = key.ext ∧ Holds s key.parent i node

/-- The map agrees with the live entries. -/
def Tracks (s : Fs) (m : FileMap) : Prop := ∀ key node, m key = some node ↔ Present s key node

variable {s s' : Fs} {m : FileMap} {p P : ℕ} {i n : Fin 64} {l : List ℕ} {key : Key} {node : Node}

theorem tracks_boot (d : Disk) : Tracks (boot d) fun _ => none := by
  intro key node
  constructor
  · intro h
    exact absurd h (by simp)
  · rintro ⟨i, hp, -⟩
    exact absurd hp (boot_not_held d)

/-- Every live entry has a node. -/
theorem exists_holds (hs : Inv s) (hp : Held s p i) : ∃ node, Holds s p i node := by
  obtain ⟨l, hl⟩ := hs.sound hp
  rcases hl.kind with hf | hd
  · exact ⟨.file _, hf.attr, l, hl.chain, rfl⟩
  · exact ⟨.folder, hd.attr⟩

/-- An entry has one node. -/
theorem Holds.unique {node' : Node} (h : Holds s p i node) (h' : Holds s p i node') : node = node' := by
  cases node with
  | folder =>
    cases node' with
    | folder => rfl
    | file _ => exact absurd h h'.1
  | file bytes =>
    cases node' with
    | folder => exact absurd h' h.1
    | file bytes' =>
      obtain ⟨-, l, hl, hb⟩ := h
      obtain ⟨-, l', hl', hb'⟩ := h'
      obtain rfl := hl.unique hl'
      rw [hb, hb']

theorem firstBytes_congr {k : ℕ} {f g : Buffer} (h : ∀ a < k, f a = g a) : firstBytes k f = firstBytes k g :=
  List.map_congr_left fun a ha => h a (List.mem_range.mp ha)

theorem content_eq {d d' : Disk} (h : ∀ k ∈ l, clusterAt d k = clusterAt d' k) {a : ℕ}
    (ha : a < l.length * 2048) : content d l a = content d' l a := by
  have hj : a / 2048 < l.length := by omega
  have hmem : l.getD (a / 2048) 0 ∈ l := by
    rw [List.getD_eq_getElem?_getD, List.getElem?_eq_getElem hj, Option.getD_some]
    exact List.getElem_mem hj
  rw [content, content, h _ hmem]

/-- Bytes of a file whose clusters stay. -/
theorem content_congr {d d' : Disk} {size : ℕ} (hlen : l.length = clustersFor size)
    (h : ∀ k ∈ l, clusterAt d k = clusterAt d' k) :
    firstBytes size (content d l) = firstBytes size (content d' l) := by
  refine firstBytes_congr fun a ha => content_eq h ?_
  rw [hlen]
  unfold clustersFor
  omega

/-- **Frame.** An entry that stays, with its chain and its clusters, keeps its node. -/
theorem holds_iff_of_frame (hs : Inv s) (hp : Held s p i) (heq : tableAt s' p i = tableAt s p i)
    (hchain : ∀ l, Chain s p i l → Chain s' p i l)
    (hdisk : ∀ l, Chain s p i l → ∀ k ∈ l, ¬ Live s k → clusterAt s'.disk k = clusterAt s.disk k) :
    Holds s' p i node ↔ Holds s p i node := by
  have hkeep : ∀ {node}, Holds s p i node → Holds s' p i node := by
    intro node h
    cases node with
    | folder => rw [Holds, heq]; exact h
    | file bytes =>
      obtain ⟨hattr, l, hl, hb⟩ := h
      obtain ⟨l₀, hl₀⟩ := hs.sound hp
      obtain rfl := hl₀.chain.unique hl
      rcases hl₀.kind with hf | hd
      · refine ⟨heq ▸ hattr, l₀, hchain l₀ hl, ?_⟩
        rw [hb, heq]
        exact content_congr hf.cells fun k hk => (hdisk l₀ hl k hk fun hlive =>
          hattr (hs.live_mem_chain hp hl hk hlive).1).symm
      · exact absurd hd.attr hattr
  refine ⟨fun h => ?_, hkeep⟩
  obtain ⟨node', h'⟩ := exists_holds hs hp
  exact h.unique (hkeep h') ▸ h'

theorem SameFiles.tracks (h : SameFiles s s') (hs : Inv s) (hm : Tracks s m) : Tracks s' m := by
  intro key node
  rw [hm key node]
  refine exists_congr fun i => ?_
  have hheld : Held s' key.parent i ↔ Held s key.parent i := ⟨h.symm.held, h.held⟩
  rw [hheld, h.tableAt]
  refine and_congr_right fun hp => and_congr_right fun _ => and_congr_right fun _ => ?_
  exact (holds_iff_of_frame hs hp (by rw [h.tableAt]) (fun l hl => h.chain.mpr hl)
    fun l _ k _ _ => by rw [h.disk]).symm

theorem Untouched.tracks (h : Untouched s s') (hs : Inv s) (hm : Tracks s m) : Tracks s' m :=
  h.sameFiles.tracks hs hm

/-! ## `write` -/

section

variable {e : FAT32DirectoryEntry} {cs : List ℕ} {data : ℕ → Cluster} {r : FAT32DriverRequest}

/-- `write` keeps the clusters of the old chains, but for directories. -/
theorem Added.disk_of_chain (h : Added s s' P n e cs data) (hs : Inv s) (hp : Held s p i)
    (hl : Chain s p i l) {k : ℕ} (hk : k ∈ l) (hlive : ¬ Live s k) :
    clusterAt s'.disk k = clusterAt s.disk k := by
  obtain ⟨l₀, hl₀⟩ := hs.sound hp
  obtain rfl := hl₀.chain.unique hl
  have hb := hl₀.bounds k hk
  have hkP : k ≠ P := by
    rintro rfl
    exact hlive h.parent
  rw [h.disk, if_neg hkP, if_neg (by omega), if_neg (h.disjoint hs hp hl hk)]

/-- `write` keeps the nodes of the old entries. -/
theorem Added.holds_iff (h : Added s s' P n e cs data) (hs : Inv s) (hp : Held s p i) :
    Holds s' p i node ↔ Holds s p i node :=
  holds_iff_of_frame hs hp (h.tableAt_held hs hp.live hp.inUse) (fun _ hl => h.chain_of_chain hs hp hl)
    fun _ hl _ hk hlive => h.disk_of_chain hs hp hl hk hlive

/-- The bytes of the new clusters: those of the buffer, and zeros after them. -/
theorem Added.content_written (h : Added s s' P n e cs data) (hs : Inv s)
    (hdata : ∀ j (h : j < cs.length),
      data cs[j] = chunk r.buf (j * 2048) (min 2048 (r.buffer_size.toNat - j * 2048))) {a : ℕ}
    (ha : a < cs.length * 2048) :
    content s'.disk cs a = if a < r.buffer_size.toNat then r.buf a else 0 := by
  have hj : a / 2048 < cs.length := by omega
  have hmem := List.getElem_mem hj
  have hb := h.bounds hs hmem
  have hP : cs[a / 2048] ≠ P := fun hP => h.live_notMem hs h.parent (hP ▸ hmem)
  have hin : a % 2048 < min 2048 (r.buffer_size.toNat - a / 2048 * 2048) ↔ a < r.buffer_size.toNat := by omega
  rw [content, List.getD_eq_getElem?_getD, List.getElem?_eq_getElem hj, Option.getD_some, h.disk,
    if_neg hP, if_neg (by omega), if_pos hmem, hdata _ hj]
  simp only [chunk, hin, show a / 2048 * 2048 + a % 2048 = a by omega]

/-- The bytes of a new file. -/
theorem Added.content_new (h : Added s s' P n e cs data) (hs : Inv s)
    (hlen : cs.length = clustersFor r.buffer_size.toNat)
    (hdata : ∀ j (h : j < cs.length),
      data cs[j] = chunk r.buf (j * 2048) (min 2048 (r.buffer_size.toNat - j * 2048))) {a : ℕ}
    (ha : a < r.buffer_size.toNat) : content s'.disk cs a = r.buf a := by
  have hlt : a < cs.length * 2048 := by
    rw [hlen]
    unfold clustersFor
    omega
  rw [h.content_written hs hdata hlt, if_pos ha]

/-- **The new entry holds what was asked for.** -/
theorem Added.present_new (h : Added s s' P n e cs data) (hs : Inv s) (hask : Asked r e cs data)
    (hP : r.parent_cluster_number.toNat = P) : Present s' r.made.1 r.made.2 := by
  subst hP
  have heq := h.tableAt_new hs
  rcases hask with ⟨hsize, he⟩ | ⟨hsize, he, hdata⟩
  · rw [FAT32DriverRequest.made, if_pos hsize]
    refine ⟨n, h.held_new hs, ?_, ?_, ?_⟩
    · rw [heq, he]; rfl
    · rw [heq, he]; rfl
    · rw [Holds, heq, he]; rfl
  · rw [FAT32DriverRequest.made, if_neg hsize.ne_zero, FAT32DriverRequest.key]
    refine ⟨n, h.held_new hs, ?_, ?_, ?_, cs, h.chain_new hs, ?_⟩
    · rw [heq, he]; rfl
    · rw [heq, he]; rfl
    · rw [heq, he]; exact attr_fileEntry _ _ _ _
    · have hsz : e.filesize = r.buffer_size := by rw [he]; rfl
      have hlen : cs.length = clustersFor r.buffer_size.toNat := by
        rcases h.kind with hf | ⟨hd, -⟩
        · rw [hf.cells, hsz]
        · exact absurd hd.attr (by rw [he]; exact attr_fileEntry _ _ _ _)
      rw [heq, hsz]
      exact (firstBytes_congr fun a ha => h.content_new hs hlen hdata ha).symm

theorem Asked.name (h : Asked r e cs data) : e.name = r.name := by
  rcases h with ⟨-, he⟩ | ⟨-, he, -⟩ <;> rw [he] <;> rfl

theorem made_parent (r : FAT32DriverRequest) : r.made.1.parent = r.parent_cluster_number.toNat := by
  rw [FAT32DriverRequest.made]
  split_ifs <;> rfl

theorem made_name (r : FAT32DriverRequest) : r.made.1.name = r.name := by
  rw [FAT32DriverRequest.made]
  split_ifs <;> rfl

/-- The key of a new entry was absent. -/
theorem Added.not_present (h : Added s s' P n e cs data) (hask : Asked r e cs data)
    (hP : r.parent_cluster_number.toNat = P) : ¬ Present s r.made.1 node := by
  rintro ⟨i, hp, hn, -⟩
  rw [made_parent, hP] at hn
  exact h.fresh_name i hp.slot (by rw [hn, made_name, hask.name])

theorem Added.tracks (h : Added s s' P n e cs data) (hs : Inv s) (hask : Asked r e cs data)
    (hP : r.parent_cluster_number.toNat = P) (hm : Tracks s m) :
    Tracks s' (Function.update m r.made.1 (some r.made.2)) := by
  have hnew := h.present_new hs hask hP
  have hinv := h.inv hs
  intro key node
  by_cases hkey : key = r.made.1
  · subst hkey
    rw [Function.update_self, Option.some.injEq]
    constructor
    · rintro rfl; exact hnew
    · rintro ⟨i, hp, hn, -, hh⟩
      obtain ⟨j, hq, hn', -, hh'⟩ := hnew
      obtain rfl := hinv.names hp hq (hn.trans hn'.symm)
      exact hh'.unique hh
  · rw [Function.update_of_ne hkey, hm key node]
    constructor
    · rintro ⟨i, hp, hn, he, hh⟩
      have heq := h.tableAt_held hs hp.live hp.inUse
      exact ⟨i, h.held_of_held hs hp, heq ▸ hn, heq ▸ he, (h.holds_iff hs hp).mpr hh⟩
    · rintro ⟨i, hp, hn, he, hh⟩
      rcases h.held_cases hs hp with hp' | ⟨hpP, rfl⟩
      · have heq := h.tableAt_held hs hp'.live hp'.inUse
        exact ⟨i, hp', heq ▸ hn, heq ▸ he, (h.holds_iff hs hp').mp hh⟩
      · -- the new entry has the new key
        refine absurd ?_ hkey
        obtain ⟨j, hq, hn', he', -⟩ := hnew
        have hparent : key.parent = r.made.1.parent := by rw [hpP, made_parent, hP]
        have hname : key.name = r.made.1.name := by
          rw [← hn, hpP, h.tableAt_new hs, made_name, hask.name]
        rw [← hparent] at hq hn' he'
        obtain rfl := hinv.names hp hq (by rw [hn, hn', hname])
        cases key
        rw [Key.mk.injEq]
        exact ⟨hparent, hname, he.symm.trans he'⟩

end

/-! ## `delete` -/

section

variable (h : Cleared s s' P n l) (hs : Inv s)
  (hempty : (tableAt s P n).attr = ATTR_SUBDIRECTORY →
    ∀ j, j ≠ 0 → ¬ (tableAt s (tableAt s P n).cluster.toNat j).InUse)

include h hs

/-- `delete` keeps the clusters of the other chains, but for directories. -/
theorem Cleared.disk_of_chain (hp : Held s' p i) {l' : List ℕ} (hl' : Chain s p i l') {k : ℕ} (hk : k ∈ l')
    (hlive : ¬ Live s k) : clusterAt s'.disk k = clusterAt s.disk k := by
  obtain ⟨hp', -, hne⟩ := h.held_cases hs hp
  obtain ⟨l₀, hl₀⟩ := hs.sound hp'
  obtain rfl := hl₀.chain.unique hl'
  have hb := hl₀.bounds k hk
  have hkP : k ≠ P := by
    rintro rfl
    exact hlive h.held.live
  rw [h.disk, if_neg hkP, if_neg (by omega), if_neg (h.disjoint hs hp' hne hl' hk)]

/-- `delete` keeps the nodes of the other entries. -/
theorem Cleared.holds_iff (hp : Held s' p i) : Holds s' p i node ↔ Holds s p i node :=
  holds_iff_of_frame hs (h.held_cases hs hp).1 (h.tableAt_held hs hp) (fun _ hl => h.chain_of_chain hs hp hl)
    fun _ hl _ hk hlive => h.disk_of_chain hs hp hl hk hlive

include hempty

theorem Cleared.tracks {r : FAT32DriverRequest} (hP : r.parent_cluster_number.toNat = P)
    (hn : (tableAt s P n).name = r.name) (he : (tableAt s P n).ext = r.ext) (hm : Tracks s m) :
    Tracks s' (Function.update m r.key none) := by
  subst hP
  intro key node
  by_cases hkey : key = r.key
  · subst hkey
    rw [Function.update_self]
    refine ⟨fun h => absurd h (by simp), ?_⟩
    rintro ⟨i, hp, hn', -⟩
    obtain ⟨hp', -, hne⟩ := h.held_cases hs hp
    rw [h.tableAt_held hs hp] at hn'
    exact absurd ⟨rfl, hs.names hp' h.held (hn'.trans hn.symm)⟩ hne
  · rw [Function.update_of_ne hkey, hm key node]
    constructor
    · rintro ⟨i, hp, hn', he', hh⟩
      have hne : ¬ (key.parent = r.parent_cluster_number.toNat ∧ i = n) := by
        rintro ⟨hpar, rfl⟩
        refine hkey ?_
        rw [hpar] at hn' he'
        cases key
        rw [FAT32DriverRequest.key, Key.mk.injEq]
        exact ⟨hpar, hn'.symm.trans hn, he'.symm.trans he⟩
      have hp' := h.held_of_held hs hempty hp hne
      have heq := h.tableAt_held hs hp'
      exact ⟨i, hp', heq ▸ hn', heq ▸ he', (h.holds_iff hs hp').mpr hh⟩
    · rintro ⟨i, hp, hn', he', hh⟩
      have heq := h.tableAt_held hs hp
      exact ⟨i, (h.held_cases hs hp).1, heq ▸ hn', heq ▸ he', (h.holds_iff hs hp).mp hh⟩

end

/-! ## `read` -/

theorem copyChain_firstBytes (d : Disk) {size : ℕ} (hlen : l.length = clustersFor size) (buf : Buffer) :
    firstBytes size (copyChain d l l.length 0 buf) = firstBytes size (content d l) := by
  refine firstBytes_congr fun a ha => ?_
  have hlt : a - 0 < l.length * 2048 := by
    rw [hlen]
    unfold clustersFor
    omega
  rw [copyChain, if_pos ⟨Nat.zero_le a, hlt⟩, Nat.sub_zero]

/-- **A key the map has**: `read` returns its bytes. -/
theorem read_present {r : FAT32DriverRequest} {bytes : List UInt8} (hs : Inv s)
    (hp : Present s r.key (.file bytes)) (hsize : r.buffer_size.toNat = bytes.length) :
    ∃ buf, read s r = .ok (0, buf) ∧ firstBytes bytes.length buf = bytes := by
  obtain ⟨i, hheld, hn, he, hattr, l, hl, hb⟩ := hp
  obtain ⟨l₀, hl₀⟩ := hs.sound hheld
  obtain rfl := hl₀.chain.unique hl
  rcases hl₀.kind with hf | hd
  · have hfs : (tableAt s r.key.parent i).filesize = r.buffer_size := by
      apply UInt32.toNat_inj.mp
      rw [hsize, hb, firstBytes, List.length_map, List.length_range]
    have hname : r.name ≠ 0 := fun h0 => hl₀.name (hn.trans h0)
    have hidx := clusterIndex_of_lt (hs.live_bounds hheld.live).2
    obtain ⟨j, hj⟩ := exists_foundAt hheld.slot ⟨hn, he⟩
    -- the first entry with the key is the only one
    obtain rfl := hs.names (hj.held hs hheld.live hname) hheld (hj.spec.2.1.trans hn.symm)
    refine ⟨_, read_hit hidx hname (hfs ▸ hf.size) hj hl (fun k hk => (hl₀.bounds k hk).2)
      (by rw [hf.cells, hfs]), ?_⟩
    rw [← hsize, copyChain_firstBytes _ (by rw [hf.cells, hfs]), ← hfs, hb]
  · exact absurd hd.attr hattr

/-- **A key the map has not**: `read` returns 3. -/
theorem read_absent {r : FAT32DriverRequest} (hs : Inv s) (hlive : Live s r.parent_cluster_number.toNat)
    (hname : r.name ≠ 0) (hsize : r.buffer_size ≠ 0) (habs : ∀ node, ¬ Present s r.key node) :
    read s r = .ok (3, r.buf) := by
  refine read_miss hname hsize ?_
  rw [clusterIndex_of_lt (hs.live_bounds hlive).2]
  rintro i hi ⟨hn, he⟩
  have hheld : Held s r.parent_cluster_number.toNat i := ⟨hlive, hi, by_contra fun hu => hname (by
    rw [← hn, hs.free hlive hu]
    rfl)⟩
  obtain ⟨node, hh⟩ := exists_holds hs hheld
  exact habs node ⟨i, hheld, hn, he, hh⟩

theorem read_reply {r : FAT32DriverRequest} {reply : Reply} {fuel : ℕ} (hs : Inv s)
    (hlive : Live s r.parent_cluster_number.toNat) (hname : r.name ≠ 0) (hm : Tracks s m)
    (h : exec fuel s (.read r) = .ok (reply, s')) : ReadReply m r reply := by
  have hread : read s r = .ok (reply.code, reply.buf) := by
    rw [exec] at h
    split at h
    · exact absurd h (by simp)
    · rename_i hr
      rw [hr, ← (Prod.mk.inj (Except.ok.inj h)).1]
  constructor
  · intro bytes hk hsize
    obtain ⟨buf, h1, h2⟩ := read_present hs ((hm _ _).mp hk) hsize
    obtain ⟨hc, rfl⟩ := Prod.mk.inj (Except.ok.inj (hread.symm.trans h1))
    exact ⟨hc, h2⟩
  · intro hk hsize
    have h1 := read_absent hs hlive hname hsize fun node hp => by
      rw [(hm _ _).mpr hp] at hk
      exact absurd hk (by simp)
    exact (Prod.mk.inj (Except.ok.inj (hread.symm.trans h1))).1

/-! ## Runs -/

/-- A step with a name, that deletes empty folders only. -/
def StepNamed (s : Fs) (event : Call × Reply) (s' : Fs) : Prop :=
  StepEmpty s event s' ∧ event.1.request.name ≠ 0

/-- **Every step of the driver is a step of the map.** -/
theorem map_step (s : Fs) (event : Call × Reply) (s' : Fs) (h : StepNamed s event s') (m : FileMap)
    (hm : (Inv s ∧ NoLeak s) ∧ Tracks s m) :
    ∃ m', MapStep m event m' ∧ (Inv s' ∧ NoLeak s') ∧ Tracks s' m' := by
  obtain ⟨hinv, hm⟩ := hm
  have hinv' := noLeak_step s event s' hinv h.1
  obtain ⟨hs, -⟩ := hinv
  obtain ⟨call, reply⟩ := event
  obtain ⟨⟨⟨hlegal, fuel, hexec⟩, hempty⟩, hname⟩ := h
  cases call with
  | write r =>
    rcases write_legal hs hlegal hexec with ⟨hr, hu⟩ | ⟨hcode, n, e, cs, data, ha, hask⟩
    · exact ⟨m, .refused hr.code_ne_zero, hinv', hu.tracks hs hm⟩
    · have hnone : m r.made.1 = none := by
        rcases hk : m r.made.1 with _ | node
        · rfl
        · exact absurd ((hm _ _).mp hk) (ha.not_present hask rfl)
      exact ⟨_, .made hcode hnone, hinv', ha.tracks hs hask rfl hm⟩
  | delete r =>
    rcases delete_legal hs hlegal hexec with ⟨hcode, rfl⟩ | ⟨hcode, i, l, hi, hcl, -⟩
    · exact ⟨m, .kept hcode, hinv', hm⟩
    · obtain ⟨hi0, hn, he⟩ := hi.spec
      obtain ⟨node, hh⟩ := exists_holds hs hcl.held
      exact ⟨_, .deleted hcode ((hm _ _).mpr ⟨i, hcl.held, hn, he, hh⟩), hinv',
        hcl.tracks hs (hempty hcode i hi0 hn he) rfl hn he hm⟩
  | read r =>
    obtain rfl := read_unchanged hexec
    exact ⟨m, .read (read_reply hs hlegal hname hm hexec), hinv', hm⟩
  | read_directory r =>
    obtain rfl := read_directory_unchanged hexec
    exact ⟨m, .read_directory, hinv', hm⟩

/-- The map of a state: its live entries, and what `read` returns for their keys and for others. -/
structure IsMap (s : Fs) (m : FileMap) : Prop where
  present : ∀ key node, m key = some node ↔ Present s key node
  read_file : ∀ r bytes, m r.key = some (.file bytes) → r.buffer_size.toNat = bytes.length →
    ∃ buf, read s r = .ok (0, buf) ∧ firstBytes bytes.length buf = bytes
  read_none : ∀ r, Live s r.parent_cluster_number.toNat → r.name ≠ 0 → r.buffer_size ≠ 0 →
    m r.key = none → read s r = .ok (3, r.buf)
  names : ∀ p i j, Held s p i → Held s p j → (tableAt s p i).name = (tableAt s p j).name → i = j

/-- **The file system simulates a finite map** from keys to byte strings: a run of calls is a run of
the map, so `read` of a file gives back the bytes of the `write` that made it. -/
theorem simulates_file_map (d : Disk) (es : List (Call × Reply)) (s : Fs)
    (h : Run StepNamed (boot d) es s) : ∃ m, Run MapStep (fun _ => none) es m ∧ IsMap s m := by
  obtain ⟨m, hrun, ⟨hs, -⟩, hm⟩ := h.simulate
    (fun s m => (Inv s ∧ NoLeak s) ∧ Tracks s m) map_step ⟨⟨inv_boot d, noLeak_boot d⟩, tracks_boot d⟩
  refine ⟨m, hrun, hm, fun r bytes hk hsize => read_present hs ((hm _ _).mp hk) hsize,
    fun r hlive hname hsize hk => read_absent hs hlive hname hsize fun node hp => ?_,
    fun p i j => hs.names⟩
  rw [(hm _ _).mpr hp] at hk
  exact absurd hk (by simp)

theorem simulates_file_map_firstFile : ∃ reply s buf,
    Run StepNamed (boot 0) [(.write firstFile, reply)] s ∧ reply.code = 0 ∧
      read s firstFile = .ok (0, buf) ∧ firstBytes 5 buf = [0, 1, 2, 3, 4] := by
  obtain ⟨reply, s, hstep, hcode⟩ := boot_firstFile
  have hname : firstFile.name ≠ 0 := fun h => absurd (congrFun h 0) (by decide)
  have hrun : Run StepNamed (boot 0) [(.write firstFile, reply)] s := .single ⟨⟨hstep, trivial⟩, hname⟩
  obtain ⟨m, hm, hmap⟩ := simulates_file_map 0 _ s hrun
  obtain ⟨m₀, hm₀, hlast⟩ := Run.snoc_iff.mp (show Run MapStep _ ([] ++ [_]) m from hm)
  obtain rfl := Run.nil_iff.mp hm₀
  have hfile : m firstFile.key = some (.file [0, 1, 2, 3, 4]) := by
    cases hlast with
    | made _ _ => exact Function.update_self _ _ _
    | refused h => exact absurd hcode h
  obtain ⟨buf, h1, h2⟩ := hmap.read_file firstFile [0, 1, 2, 3, 4] hfile rfl
  exact ⟨reply, s, buf, hrun, hcode, h1, h2⟩

end KeropOS
