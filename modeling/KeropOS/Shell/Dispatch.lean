import KeropOS.Lib.Segments
import KeropOS.Shell.Editor
import KeropOS.Shell.Files
import KeropOS.Shell.Find

/-!
# The commands of the shell

The back of `exec_command`: the first argument is compared with the names of the commands, and a handler is
called with the others. `strcmp` lets every first word pass that starts with a name.

* `Called`: what `exec_command` calls; `exec_command`: the chain of comparisons, and what is called;
* `Enough`: there are as many words as the command takes; **`exec_command_reads_iff`**;
* `cuts`, `Delimited`: the words on a line; `collect_args_zero`, `collect_args_full`: the arguments on a line
  with a zero, and without;
* `Supplied`: a line has enough words; **`arguments_supplied_iff`**.
-/

namespace KeropOS

open Segments

/-! ## The code -/

/-- A call that `exec_command` makes, with the arguments it takes from `args`. `puts` is system call 6,
`clear` 9, `clock` 16, and `kill` 21. -/
inductive Called
  | cede (dirname : List UInt8)
  | eles
  | mkdir_command (dirname : List UInt8)
  | fain (name : List UInt8)
  | ket (filename : List UInt8)
  | clear
  | emvi (source dest : List UInt8)
  | erem (filename : List UInt8)
  | cepe (source dest : List UInt8)
  | nano (filename : List UInt8)
  | eksek (filename : List UInt8)
  | pees
  | kill (number : List UInt8)
  | clock
  | puts (text : String) (count : ℕ) (colour : UInt8)

namespace Verb

def cd : List UInt8 := [99, 100]
def ls : List UInt8 := [108, 115]
def mkdir : List UInt8 := [109, 107, 100, 105, 114]
def find : List UInt8 := [102, 105, 110, 100]
def cat : List UInt8 := [99, 97, 116]
def clear : List UInt8 := [99, 108, 101, 97, 114]
def mv : List UInt8 := [109, 118]
def rm : List UInt8 := [114, 109]
def cp : List UInt8 := [99, 112]
def nano : List UInt8 := [110, 97, 110, 111]
def here : List UInt8 := [46, 47]
def up : List UInt8 := [46, 46, 47]
def shell : List UInt8 := [46, 47, 115, 104, 101, 108, 108]
def ps : List UInt8 := [112, 115]
def kill : List UInt8 := [107, 105, 108, 108]
def clock : List UInt8 := [99, 108, 111, 99, 107]

end Verb

/-- `strcmp(name, args[0]) == 0`. -/
def calls_for (name command : List UInt8) : Prop := strcmp (name ++ [0]) (cstring command) = some 0

instance (name command : List UInt8) : Decidable (calls_for name command) := by
  unfold calls_for
  infer_instance

/-- The chain of comparisons with `args[0]`; `none` when it reads `args[k]` for a `k` from `argc` on. -/
def select (command : List UInt8) (args : List (List UInt8)) : Option Called :=
  if calls_for Verb.cd command then args[1]?.map .cede
  else if calls_for Verb.ls command then some .eles
  else if calls_for Verb.mkdir command then
    if args.length ≥ 2 then args[1]?.map .mkdir_command
    else some (.puts "[ERROR]: Usage: mkdir <dirname>\n" 33 RED)
  else if calls_for Verb.find command then
    if args.length ≥ 2 then args[1]?.map .fain
    else some (.puts "[ERROR]: Usage: find <folder/filename> \n" 41 RED)
  else if calls_for Verb.cat command then args[1]?.map .ket
  else if calls_for Verb.clear command then some .clear
  else if calls_for Verb.mv command then
    if args.length = 3 then args[1]?.bind fun source => args[2]?.map (.emvi source)
    else some (.puts "[ERROR]: Usage: mv <sourcename> <destpath>\n" 43 RED)
  else if calls_for Verb.rm command then
    if args.length = 2 then args[1]?.map .erem
    else some (.puts "[ERROR]: Usage: rm <filepath>\n" 30 RED)
  else if calls_for Verb.cp command then
    if args.length = 3 then args[1]?.bind fun source => args[2]?.map (.cepe source)
    else some (.puts "[ERROR]: Usage: cp <filesrcpath> <filesdestpath>\n" 49 RED)
  else if calls_for Verb.nano command then
    if args.length = 2 then args[1]?.map .nano
    else some (.puts "[ERROR]: Usage: nano <filepath> \n" 33 RED)
  else if calls_for Verb.here command ∨ calls_for Verb.up command then
    if calls_for Verb.shell command then some (.puts "Cant run shell again!\n" 22 RED)
    else if args.length = 1 then some (.eksek command)
    else some (.puts "[ERROR]: Usage: ./<filepath>\n" 29 RED)
  else if calls_for Verb.ps command then
    if args.length = 1 then some .pees
    else some (.puts "[ERROR]: Usage: ps\n" 19 RED)
  else if calls_for Verb.kill command then args[1]?.map .kill
  else if calls_for Verb.clock command then some .clock
  else some (.puts "[ERROR]: Invalid Command !\n" 28 RED)

/-- `exec_command` behind the tokeniser. -/
def exec_command (args : List (List UInt8)) : Option Called :=
  match args[0]? with
  | none => none
  | some command => select command args

/-! ## The property -/

/-- The arguments are found, and no other one is read. -/
def ReadsArguments (behind : ℕ → List UInt8) (keys : List UInt8) (buff : Buffer) : Prop :=
  ∃ args, command_args behind (keys ++ [10]) buff = .ok args ∧ (exec_command args).isSome = true

/-- There is a word, and a second one if the first starts with `"cd"`, `"cat"` or `"kill"`. -/
def Enough (words : List (List UInt8)) : Prop :=
  ∃ command rest, words = command :: rest ∧
    (Verb.cd <+: command ∨ Verb.cat <+: command ∨ Verb.kill <+: command → rest ≠ [])

/-- The first words of a text, the `k`-th one between spaces and bytes of `behind k`. -/
def cuts : (behind : ℕ → List UInt8) → (places : ℕ) → (text : List UInt8) → List (List UInt8)
  | _, 0, _ => []
  | behind, places + 1, text =>
    match text.dropWhile (· ∈ 32 :: behind 0) with
    | [] => []
    | c :: text =>
      (c :: text).takeWhile (· ∉ 32 :: behind 0) ::
        cuts (nextCalls behind) places ((c :: text).dropWhile (· ∉ 32 :: behind 0)).tail

/-- There are as many words in the memory, the `k`-th one between spaces and bytes of `behind k`, with one of
these behind it. -/
def Delimited : (behind : ℕ → List UInt8) → (number : ℕ) → (m : List UInt8) → Prop
  | _, 0, _ => True
  | behind, number + 1, m => ∃ sp w d r, m = sp ++ w ++ d :: r ∧ (∀ c ∈ sp, c ∈ 32 :: behind 0) ∧ w ≠ [] ∧
      (∀ c ∈ w, c ∉ 32 :: behind 0) ∧ d ∈ 32 :: behind 0 ∧ Delimited (nextCalls behind) number r

/-- The text stays within `buff`. If there is a zero in `buff` then, the words before the first zero are
enough; else there are four words, each with a delimiter behind it. -/
def Supplied (behind : ℕ → List UInt8) (keys : List UInt8) (buff : Buffer) : Prop :=
  reached [] keys ≤ 2048 ∧
    ((∃ text rest, edited keys ++ leftOnLine keys buff = text ++ 0 :: rest ∧ 0 ∉ text ∧
        Enough (cuts behind 3 text)) ∨
      (0 ∉ edited keys ++ leftOnLine keys buff ∧ Delimited behind 4 (edited keys ++ leftOnLine keys buff)))

/-! ## The chain -/

section

variable {name command : List UInt8} {args rest : List (List UInt8)} {x y : Option Called}

/-- A name lets every word pass that starts with it. -/
theorem calls_for_iff (h0 : 0 ∉ name) (hne : name ≠ []) : calls_for name command ↔ name <+: command := by
  have hpos := List.length_pos_iff.mpr hne
  unfold calls_for
  rw [strcmp_zero_iff, List.prefix_iff_getElem?]
  constructor
  · rintro ⟨n, hpre, hend⟩ k hk
    have hn : n + 1 = name.length := by
      by_contra hlt
      by_cases hle : n + 1 < name.length
      · rw [List.getElem?_append_left hle, List.getElem?_eq_getElem hle, Option.some.injEq] at hend
        exact h0 (hend ▸ List.getElem_mem hle)
      · rw [List.getElem?_eq_none (by simp; omega)] at hend
        exact absurd hend (by simp)
    have hchar := hpre k (by omega)
    rw [List.getElem?_append_left hk, List.getElem?_eq_getElem hk, Option.some.injEq] at hchar
    by_cases hc : k < command.length
    · rw [List.getElem?_eq_getElem hc, hchar, cstring, List.getD_eq_getElem _ _ hc]
    · rw [cstring, List.getD_eq_default _ _ (not_lt.mp hc)] at hchar
      exact absurd (hchar ▸ List.getElem_mem hk) h0
  · intro h
    refine ⟨name.length - 1, fun k hk => ?_, ?_⟩
    · have hlt : k < name.length := by omega
      rw [List.getElem?_append_left hlt, List.getElem?_eq_getElem hlt, cstring, List.getD_eq_getElem?_getD,
        h k hlt, Option.getD_some]
    · rw [Nat.sub_add_cancel hpos, List.getElem?_append_right le_rfl, Nat.sub_self]
      rfl

/-- The names that need a second word. -/
def NeedsWord (command : List UInt8) : Prop :=
  Verb.cd <+: command ∨ Verb.cat <+: command ∨ Verb.kill <+: command

/-- Another name, that is no front of those and has none of them as its front. -/
def Other (name : List UInt8) : Prop :=
  0 ∉ name ∧ name ≠ [] ∧ ∀ n ∈ [Verb.cd, Verb.cat, Verb.kill], ¬ name <+: n ∧ ¬ n <+: name

instance (name : List UInt8) : Decidable (Other name) := by
  unfold Other
  infer_instance

/-- A word that starts with another name needs none. -/
theorem Other.not_needsWord (h : Other name) (hcall : calls_for name command) : ¬ NeedsWord command := by
  obtain ⟨h0, hne, hother⟩ := h
  have hpre := (calls_for_iff h0 hne).mp hcall
  have hno : ∀ n ∈ [Verb.cd, Verb.cat, Verb.kill], ¬ n <+: command := fun n hn hpre' =>
    (List.prefix_or_prefix_of_prefix hpre hpre').elim (hother n hn).1 (hother n hn).2
  rintro (hword | hword | hword)
  · exact hno _ (by simp) hword
  · exact hno _ (by simp) hword
  · exact hno _ (by simp) hword

/-- A branch reads an argument that is there, when there is a word where one is needed, and then only. -/
def AsSupplied (command : List UInt8) (rest : List (List UInt8)) (x : Option Called) : Prop :=
  x.isSome = true ↔ (NeedsWord command → rest ≠ [])

/-- One link of the chain. -/
theorem AsSupplied.ite {P : Prop} [Decidable P] (hx : P → AsSupplied command rest x)
    (hy : ¬ P → AsSupplied command rest y) : AsSupplied command rest (if P then x else y) := by
  by_cases h : P
  · rw [if_pos h]
    exact hx h
  · rw [if_neg h]
    exact hy h

/-- A branch for another name reads what there is. -/
theorem Other.reads (h : Other name) (hx : x.isSome = true) (hcall : calls_for name command) :
    AsSupplied command rest x :=
  iff_of_true hx fun hneeds => absurd hneeds (h.not_needsWord hcall)

/-- A branch for another name that looks at `argc` first. -/
theorem Other.checks {P : Prop} [Decidable P] (h : Other name) (hx : P → x.isSome = true)
    (hy : y.isSome = true) (hcall : calls_for name command) :
    AsSupplied command rest (if P then x else y) :=
  .ite (fun hp => h.reads (hx hp) hcall) fun _ => h.reads hy hcall

theorem second_isSome {f : List UInt8 → Called} :
    ((command :: rest)[1]?.map f).isSome = true ↔ rest ≠ [] := by
  cases rest with
  | nil => simp
  | cons w rest => simp

/-- A branch that takes the second word without a look at `argc`. -/
theorem second_reads {f : List UInt8 → Called} (h0 : 0 ∉ name) (hne : name ≠ [])
    (hneeds : name <+: command → NeedsWord command) (hcall : calls_for name command) :
    AsSupplied command rest ((command :: rest)[1]?.map f) := by
  have hword := hneeds ((calls_for_iff h0 hne).mp hcall)
  exact second_isSome.trans ⟨fun h _ => h, fun h => h hword⟩

theorem third_isSome {f : List UInt8 → List UInt8 → Called} (h : (command :: rest).length = 3) :
    ((command :: rest)[1]?.bind fun a => (command :: rest)[2]?.map (f a)).isSome = true := by
  have h1 : 1 < (command :: rest).length := by omega
  have h2 : 2 < (command :: rest).length := by omega
  rw [List.getElem?_eq_getElem h1, List.getElem?_eq_getElem h2]
  rfl

/-- **What `exec_command` reads**: in each branch of the chain, the arguments that it uses. -/
theorem exec_command_cons :
    (exec_command (command :: rest)).isSome = true ↔ (NeedsWord command → rest ≠ []) := by
  have hrest : (command :: rest).length ≥ 2 → rest ≠ [] := by
    rintro h rfl
    exact absurd h (by simp)
  show AsSupplied command rest (select command (command :: rest))
  unfold select
  -- cd
  refine .ite (second_reads (by decide) (by decide) .inl) fun hcd => ?_
  -- ls
  refine .ite (Other.reads (by decide) rfl) fun _ => ?_
  -- mkdir, find
  refine .ite (Other.checks (by decide) (fun hargs => second_isSome.mpr (hrest hargs)) rfl) fun _ => ?_
  refine .ite (Other.checks (by decide) (fun hargs => second_isSome.mpr (hrest hargs)) rfl) fun _ => ?_
  -- cat
  refine .ite (second_reads (by decide) (by decide) fun h => .inr (.inl h)) fun hcat => ?_
  -- clear
  refine .ite (Other.reads (by decide) rfl) fun _ => ?_
  -- mv, rm, cp, nano
  refine .ite (Other.checks (by decide) third_isSome rfl) fun _ => ?_
  refine .ite (Other.checks (by decide) (fun hargs => second_isSome.mpr (hrest hargs.ge)) rfl) fun _ => ?_
  refine .ite (Other.checks (by decide) third_isSome rfl) fun _ => ?_
  refine .ite (Other.checks (by decide) (fun hargs => second_isSome.mpr (hrest hargs.ge)) rfl) fun _ => ?_
  -- a program: both names are other ones
  refine .ite (fun hpath => ?_) fun _ => ?_
  · have hreads : ∀ x : Option Called, x.isSome = true → AsSupplied command rest x := fun x hx =>
      hpath.elim (Other.reads (by decide) hx) (Other.reads (by decide) hx)
    exact .ite (fun _ => hreads _ rfl) fun _ => .ite (fun _ => hreads _ rfl) fun _ => hreads _ rfl
  -- ps
  refine .ite (Other.checks (by decide) (fun _ => rfl) rfl) fun _ => ?_
  -- kill
  refine .ite (second_reads (by decide) (by decide) fun h => .inr (.inr h)) fun hkill => ?_
  -- clock
  refine .ite (Other.reads (by decide) rfl) fun _ => ?_
  refine iff_of_true rfl ?_
  rintro (h | h | h)
  · exact absurd ((calls_for_iff (by decide) (by decide)).mpr h) hcd
  · exact absurd ((calls_for_iff (by decide) (by decide)).mpr h) hcat
  · exact absurd ((calls_for_iff (by decide) (by decide)).mpr h) hkill

/-- **When `exec_command` reads no argument that is not there.** -/
theorem exec_command_reads_iff : (exec_command args).isSome = true ↔ Enough args := by
  cases args with
  | nil =>
    refine iff_of_false (by simp [exec_command]) ?_
    rintro ⟨_, _, h, -⟩
    exact absurd h (List.cons_ne_nil _ _).symm
  | cons command rest =>
    rw [exec_command_cons]
    constructor
    · exact fun h => ⟨command, rest, rfl, h⟩
    · rintro ⟨_, _, h, hneeds⟩
      obtain ⟨rfl, rfl⟩ := List.cons.inj h
      exact hneeds

end

/-! ## The arguments on a line -/

section

variable {calls : ℕ → List UInt8} {delim sp t u v m w : List UInt8} {places : ℕ} {args : List (List UInt8)}
  {reply : Option (List UInt8) × Option (List UInt8)}

theorem cuts_separators (h : ∀ c ∈ t, c ∈ 32 :: calls 0) : cuts calls (places + 1) t = [] := by
  have hnone : t.dropWhile (· ∈ 32 :: calls 0) = [] :=
    List.dropWhile_eq_nil_iff.mpr fun c hc => decide_eq_true (h c hc)
  rw [cuts, hnone]

theorem cuts_nil : cuts calls places [] = [] := by
  cases places with
  | zero => rfl
  | succ places => exact cuts_separators fun _ hc => absurd hc List.not_mem_nil

theorem cuts_word (hsp : ∀ c ∈ sp, c ∈ 32 :: calls 0) (hw : w ≠ []) (hfree : ∀ c ∈ w, c ∉ 32 :: calls 0)
    (hv : v = [] ∨ ∃ d t, v = d :: t ∧ d ∈ 32 :: calls 0) :
    cuts calls (places + 1) (sp ++ w ++ v) = w :: cuts (nextCalls calls) places v.tail := by
  obtain ⟨c, w', rfl⟩ := List.exists_cons_of_ne_nil hw
  have hword : ∀ c' ∈ c :: w', decide (c' ∉ 32 :: calls 0) = true := fun c' hc' => decide_eq_true (hfree c' hc')
  have hskip : (sp ++ (c :: w') ++ v).dropWhile (· ∈ 32 :: calls 0) = c :: (w' ++ v) := by
    rw [List.append_assoc, List.dropWhile_append_of_pos fun c hc => decide_eq_true (hsp c hc)]
    exact List.dropWhile_cons_of_neg fun h => hfree c (List.mem_cons_self ..) (of_decide_eq_true h)
  have hend : v.takeWhile (· ∉ 32 :: calls 0) = [] ∧ v.dropWhile (· ∉ 32 :: calls 0) = v := by
    rcases hv with rfl | ⟨d, t, rfl, hd⟩
    · exact ⟨rfl, rfl⟩
    · have hneg : ¬ (fun d => decide (d ∉ 32 :: calls 0)) d = true := fun h => of_decide_eq_true h hd
      exact ⟨List.takeWhile_cons_of_neg hneg, List.dropWhile_cons_of_neg hneg⟩
  rw [cuts, hskip]
  simp only
  rw [← List.cons_append, List.takeWhile_append_of_pos hword, List.dropWhile_append_of_pos hword, hend.1, hend.2,
    List.append_nil]

/-- A call of `strtok` before a zero, when there is no word. -/
theorem strtok_end (h0 : 0 ∉ t) (h : ∀ c ∈ t, c ∈ delim) :
    strtok delim (some (t ++ 0 :: u)) = .ok (none, none) := by
  rw [strtok, List.dropWhile_append_of_pos fun c hc => isDelim_of_mem h0 hc (h c hc),
    List.dropWhile_cons_of_neg (by rw [not_isDelim_zero]; decide)]
  simp only [if_true]

/-- A call of `strtok` before a zero, when there is one. -/
theorem strtok_first (h0 : 0 ∉ sp ++ w ++ v) (hsp : ∀ c ∈ sp, c ∈ delim) (hw : w ≠ [])
    (hfree : ∀ c ∈ w, c ∉ delim) (hv : v = [] ∨ ∃ d t, v = d :: t ∧ d ∈ delim) :
    strtok delim (some (sp ++ w ++ v ++ 0 :: u)) =
      .ok (some w, if v = [] then none else some (v.tail ++ 0 :: u)) := by
  have h0sp : 0 ∉ sp := fun h => h0 (by simp [h])
  have h0w : 0 ∉ w := fun h => h0 (by simp [h])
  have h0v : 0 ∉ v := fun h => h0 (by simp [h])
  have hdelims : ∀ c ∈ sp, isDelim delim c = true := fun c hc => isDelim_of_mem h0sp hc (hsp c hc)
  have htoken : ∀ c ∈ w, inToken delim c = true := fun c hc => inToken_of_not_mem h0w hc (hfree c hc)
  rcases hv with rfl | ⟨d, t, rfl, hd⟩
  · rw [List.append_nil, if_pos rfl]
    exact strtok_word hdelims hw htoken rfl
  · have hd0 : d ≠ 0 := fun h => h0v (h ▸ List.mem_cons_self ..)
    have hdelim := isDelim_of_mem h0v (List.mem_cons_self ..) hd
    rw [List.append_assoc (sp ++ w), List.cons_append,
      strtok_word hdelims hw htoken (inToken_eq_false_iff.mpr (.inr hdelim)), if_pos hd0,
      if_neg (List.cons_ne_nil d t), List.tail_cons]

/-- **The arguments on a line with a zero**: the first words before it. -/
theorem collect_args_zero (h0 : 0 ∉ t) :
    collect_args calls places (some (t ++ 0 :: u)) = .ok (cuts calls places t) := by
  induction places generalizing calls t with
  | zero =>
    unfold collect_args
    rcases @first_segment _ (· ∈ 32 :: calls 0) _ t with hall | ⟨sp, w, v, rfl, hsp, hw, hfree, hv⟩
    · rw [strtok_end h0 hall]
      rfl
    · rw [strtok_first h0 hsp hw hfree hv]
      rfl
  | succ places ih =>
    unfold collect_args
    rcases @first_segment _ (· ∈ 32 :: calls 0) _ t with hall | ⟨sp, w, v, rfl, hsp, hw, hfree, hv⟩
    · rw [strtok_end h0 hall, cuts_separators hall]
    · rw [strtok_first h0 hsp hw hfree hv, cuts_word hsp hw hfree hv]
      rcases hv with rfl | ⟨d, t, rfl, -⟩
      · simp only [if_true, collect_none, List.tail_nil, cuts_nil]
      · have h0t : 0 ∉ t := fun h => h0 (by simp [h])
        simp only [if_neg (List.cons_ne_nil d t), List.tail_cons, ih h0t]

theorem mem_of_isDelim {c : UInt8} (h : isDelim delim c = true) : c ∈ delim := by
  rw [isDelim, Bool.and_eq_true, custom_strchr_iff] at h
  exact h.2

/-- A call of `strtok` where there is no zero: it finds a word with a delimiter behind it. -/
theorem strtok_full (h0 : 0 ∉ m) : strtok delim (some m) = .ok reply ↔ ∃ sp w d r, m = sp ++ w ++ d :: r ∧
    (∀ c ∈ sp, c ∈ delim) ∧ w ≠ [] ∧ (∀ c ∈ w, c ∉ delim) ∧ d ∈ delim ∧ reply = (some w, some r) := by
  constructor
  · intro h
    obtain ⟨_ | w, next⟩ := reply
    · obtain ⟨r, hr⟩ := strtok_none.mp ⟨next, h⟩
      exact absurd ((List.dropWhile_sublist _).subset (hr ▸ List.mem_cons_self ..)) h0
    · obtain ⟨sp, d, r, rfl, hsp, hw, htoken, hd, rfl⟩ := strtok_some h
      have hd0 : d ≠ 0 := fun he => h0 (by simp [he])
      have hdelim := (inToken_eq_false_iff.mp hd).resolve_left hd0
      refine ⟨sp, w, d, r, rfl, fun c hc => mem_of_isDelim (hsp c hc), hw, fun c hc hmem => ?_,
        mem_of_isDelim hdelim, by rw [if_pos hd0]⟩
      have h0w : 0 ∉ w := fun h => h0 (by simp [h])
      have := htoken c hc
      rw [inToken_eq_false_iff.mpr (.inr (isDelim_of_mem h0w hc hmem))] at this
      exact absurd this (by simp)
  · rintro ⟨sp, w, d, r, rfl, hsp, hw, hfree, hd, rfl⟩
    have h0sp : 0 ∉ sp := fun h => h0 (by simp [h])
    have h0w : 0 ∉ w := fun h => h0 (by simp [h])
    have hd0 : d ≠ 0 := fun he => h0 (by simp [he])
    have h0d : 0 ∉ [d] := by simpa using hd0.symm
    have hdelim := isDelim_of_mem h0d (List.mem_singleton_self d) hd
    rw [strtok_word (fun c hc => isDelim_of_mem h0sp hc (hsp c hc)) hw
      (fun c hc => inToken_of_not_mem h0w hc (hfree c hc)) (inToken_eq_false_iff.mpr (.inr hdelim)), if_pos hd0]

/-- **The arguments on a line without a zero**: every place gets one, and there is another word. -/
theorem collect_args_full (h0 : 0 ∉ m) : (∃ args, collect_args calls places (some m) = .ok args ∧
    args.length = places) ↔ Delimited calls (places + 1) m := by
  induction places generalizing calls m with
  | zero =>
    simp only [Delimited, and_true]
    constructor
    · rintro ⟨args, h, hlen⟩
      obtain rfl := List.length_eq_zero_iff.mp hlen
      obtain ⟨reply, hreply⟩ := collect_zero.mp h
      obtain ⟨sp, w, d, r, hm, hsp, hw, hfree, hd, -⟩ := (strtok_full h0).mp hreply
      exact ⟨sp, w, d, r, hm, hsp, hw, hfree, hd⟩
    · rintro ⟨sp, w, d, r, hm, hsp, hw, hfree, hd⟩
      exact ⟨[], collect_zero.mpr ⟨_, (strtok_full h0).mpr ⟨sp, w, d, r, hm, hsp, hw, hfree, hd, rfl⟩⟩, rfl⟩
  | succ places ih =>
    rw [Delimited]
    constructor
    · rintro ⟨args, h, hlen⟩
      obtain ⟨w', args, rfl⟩ := List.exists_cons_of_length_eq_add_one hlen
      obtain ⟨next, hreply, hrest⟩ := collect_cons.mp h
      obtain ⟨sp, w, d, r, rfl, hsp, hw, hfree, hd, heq⟩ := (strtok_full h0).mp hreply
      obtain ⟨-, rfl⟩ := Prod.mk.inj heq
      have h0r : 0 ∉ r := fun h => h0 (by simp [h])
      exact ⟨sp, w, d, r, rfl, hsp, hw, hfree, hd, (ih h0r).mp ⟨args, hrest, by simpa using hlen⟩⟩
    · rintro ⟨sp, w, d, r, rfl, hsp, hw, hfree, hd, hrest⟩
      have h0r : 0 ∉ r := fun h => h0 (by simp [h])
      obtain ⟨args, hargs, hlen⟩ := (ih h0r).mpr hrest
      exact ⟨w :: args, collect_cons.mpr ⟨_, (strtok_full h0).mpr ⟨sp, w, d, r, rfl, hsp, hw, hfree, hd, rfl⟩,
        hargs⟩, by rw [List.length_cons, hlen]⟩

/-- Without a zero, `strtok` finds no end of the words. -/
theorem collect_args_length (h0 : 0 ∉ m) (h : collect_args calls places (some m) = .ok args) :
    args.length = places := by
  induction places generalizing calls m args with
  | zero =>
    unfold collect_args at h
    split at h
    · exact absurd h (by simp)
    · rw [← Except.ok.inj h, List.length_nil]
  | succ places ih =>
    cases args with
    | nil =>
      obtain ⟨r, hr⟩ := collect_nil.mp h
      exact absurd ((List.dropWhile_sublist _).subset (hr ▸ List.mem_cons_self ..)) h0
    | cons w args =>
      obtain ⟨next, hreply, hrest⟩ := collect_cons.mp h
      obtain ⟨sp, w', d, r, rfl, -, -, -, -, heq⟩ := (strtok_full h0).mp hreply
      obtain ⟨-, rfl⟩ := Prod.mk.inj heq
      rw [List.length_cons, ih (fun h => h0 (by simp [h])) hrest]

end

/-! ## The command line -/

section

variable {behind : ℕ → List UInt8} {keys : List UInt8} {buff : Buffer}

/-- **When no argument is read that is not there**: the text stays within `buff`, and the words before the
first zero are enough for the command, or there is no zero, and a word more than `args` has places. -/
theorem arguments_supplied_iff (behind : ℕ → List UInt8) (keys : List UInt8) (buff : Buffer)
    (hkeys : 10 ∉ keys) : ReadsArguments behind keys buff ↔ Supplied behind keys buff := by
  unfold ReadsArguments Supplied command_args
  rw [edit_line_start 32 buff hkeys]
  by_cases hreached : reached [] keys ≤ 2048
  · have hlen : (edited keys).length ≤ reached [] keys := foldl_length_le_reached
    have hline : (List.range 2048).map (laid 32 (edited keys) (reached [] keys) buff) =
        edited keys ++ leftOnLine keys buff := line_eq hlen hreached
    simp only [if_pos hreached, hline, exec_command_reads_iff]
    rw [and_iff_right hreached]
    by_cases h0 : 0 ∈ edited keys ++ leftOnLine keys buff
    · rw [or_iff_left fun h => h.1 h0]
      constructor
      · rintro ⟨args, hargs, henough⟩
        obtain ⟨text, rest, hsplit, hfirst⟩ := List.eq_append_cons_of_mem h0
        rw [hsplit, collect_args_zero hfirst, Except.ok.injEq] at hargs
        exact ⟨text, rest, hsplit, hfirst, hargs ▸ henough⟩
      · rintro ⟨text, rest, hsplit, hfirst, henough⟩
        exact ⟨_, hsplit ▸ collect_args_zero hfirst, henough⟩
    · have hnone : ¬ ∃ text rest, edited keys ++ leftOnLine keys buff = text ++ 0 :: rest ∧ 0 ∉ text ∧
          Enough (cuts behind 3 text) := by
        rintro ⟨text, rest, hsplit, -⟩
        exact h0 (by simp [hsplit])
      rw [or_iff_right hnone, and_iff_right h0, ← collect_args_full h0]
      constructor
      · exact fun ⟨args, hargs, _⟩ => ⟨args, hargs, collect_args_length h0 hargs⟩
      · rintro ⟨args, hargs, hlength⟩
        obtain ⟨a, b, c, rfl⟩ := List.length_eq_three.mp hlength
        exact ⟨_, hargs, a, [b, c], rfl, fun _ => List.cons_ne_nil _ _⟩
  · simp only [if_neg hreached]
    exact iff_of_false (fun ⟨_, h, _⟩ => absurd h (by simp)) fun h => hreached h.1

/-- What is left on a line of zeros. -/
theorem leftOnLine_zero (keys : List UInt8) : leftOnLine keys (fun _ => 0) =
    List.replicate (reached [] keys - (edited keys).length) 32 ++
    List.replicate (2048 - reached [] keys) 0 := by
  unfold leftOnLine
  rw [List.map_const', List.length_range']

/-- `"cd ab"` on a line of zeros. -/
theorem arguments_supplied_cd : 10 ∉ ([99, 100, 32, 97, 98] : List UInt8) ∧
    ReadsArguments (fun _ => []) [99, 100, 32, 97, 98] (fun _ => 0) := by
  refine ⟨by decide, (arguments_supplied_iff _ [99, 100, 32, 97, 98] (fun _ => 0) (by decide)).mpr
    ⟨by decide, .inl ⟨[99, 100, 32, 97, 98], List.replicate 2042 0, ?_, by decide, ?_⟩⟩⟩
  · have hreached : reached [] [99, 100, 32, 97, 98] = 5 := by decide
    have htext : edited [99, 100, 32, 97, 98] = [99, 100, 32, 97, 98] := by decide
    rw [leftOnLine_zero, hreached, htext, ← List.replicate_succ]
    rfl
  · exact ⟨[99, 100], [[97, 98]], by decide, fun _ => List.cons_ne_nil _ _⟩

/-- An empty line. -/
theorem empty_line_reads : ¬ ReadsArguments (fun _ => []) [] (fun _ => 0) := by
  rintro ⟨args, hargs, hreads⟩
  have hedit := @edit_line_start [] 32 (fun _ => 0) List.not_mem_nil
  have hline : (List.range 2048).map (laid 32 [] 0 fun _ => 0) = [] ++ 0 :: List.replicate 2047 0 := by
    rw [laid_nil, List.map_const', List.length_range]
    rfl
  have hnone : command_args (fun _ => []) ([] ++ [10]) (fun _ => 0) = .ok [] := by
    unfold command_args
    rw [hedit, if_pos (by decide)]
    exact (congrArg (fun line => collect_args (fun _ => []) 3 (some line)) hline).trans
      (collect_args_zero List.not_mem_nil)
  rw [hnone, Except.ok.injEq] at hargs
  exact absurd (hargs ▸ hreads) (by decide)

end

end KeropOS
