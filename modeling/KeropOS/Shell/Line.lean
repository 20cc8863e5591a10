import KeropOS.Lib.Segments
import KeropOS.Shell.Commands
import Mathlib.Data.List.GetD
import Mathlib.Data.List.TakeWhile

/-!
# The command line

How `exec_command` gets its arguments: the keys are edited into `buff`, which is not cleared before, and
`strtok` cuts it up. `delim` is one byte long; what is behind it in memory, up to a zero, delimits too.

* `custom_strchr`, `strtok`, `collect_args`, `command_args`: the code;
* `edited`, `words`: the text typed and its words;
* `laid`, **`edit_line_eq`**: what `buff` holds after the keys;
* `Uncut`, `Tail`: the words, and what may be behind them; **`collect_args_iff`**: the tokeniser;
* **`command_args_iff`**: when the arguments are the words typed.

A read behind the end of `buff` ends the command with `Trap.outOfBounds`.
-/

namespace KeropOS

/-! ## The code -/

/-- `custom_strchr`, of a string without its zero: is the character in it? -/
def custom_strchr : (str : List UInt8) → (c : UInt8) → Bool
  | [], _ => false
  | a :: str, c => if a = c then true else custom_strchr str c

/-- `*str && custom_strchr(delim, *str)`. -/
def isDelim (delim : List UInt8) (c : UInt8) : Bool := c ≠ 0 && custom_strchr delim c

/-- `*str && !custom_strchr(delim, *str)`. -/
def inToken (delim : List UInt8) (c : UInt8) : Bool := c ≠ 0 && !custom_strchr delim c

/-- `strtok`, on the memory from `str` or else from `next_token` on: the token and the new `next_token`. The
zero that ends the token is stored in place of the delimiter behind it. -/
def strtok (delim : List UInt8) : Option (List UInt8) →
    Except Trap (Option (List UInt8) × Option (List UInt8))
  | none => .ok (none, none)
  | some str =>
    match str.dropWhile (isDelim delim) with
    | [] => .error .outOfBounds
    | c :: str =>
      if c = 0 then .ok (none, none)
      else
        match (c :: str).dropWhile (inToken delim) with
        | [] => .error .outOfBounds
        | d :: next => .ok (some ((c :: str).takeWhile (inToken delim)), if d ≠ 0 then some next else none)

/-- What lies behind `delim` at the calls that follow the first one. -/
def nextCalls (behind : ℕ → List UInt8) : ℕ → List UInt8 := fun k => behind (k + 1)

/-- The loop over the tokens, with the number of places left in `args`. At its `k`-th call of `strtok`,
`behind k` lies behind `delim`. -/
def collect_args : (behind : ℕ → List UInt8) → (places : ℕ) → (str : Option (List UInt8)) →
    Except Trap (List (List UInt8))
  | behind, 0, str =>
    match strtok (32 :: behind 0) str with
    | .error t => .error t
    | .ok _ => .ok []
  | behind, places + 1, str =>
    match strtok (32 :: behind 0) str with
    | .error t => .error t
    | .ok (none, _) => .ok []
    | .ok (some token, next_token) =>
      match collect_args (nextCalls behind) places next_token with
      | .error t => .error t
      | .ok args => .ok (token :: args)

/-- The front of `exec_command`: the arguments for the keys pressed, with the bytes behind `delim`. -/
def command_args (behind : ℕ → List UInt8) (keys : List UInt8) (buff : Buffer) :
    Except Trap (List (List UInt8)) :=
  match edit_line 32 2048 keys 0 buff with
  | .error t => .error t
  | .ok (_, buff) => collect_args behind 3 (some ((List.range 2048).map buff))

/-! ## What was typed -/

/-- One key; 8 is the backspace, and 0 is none. -/
def press (text : List UInt8) (key : UInt8) : List UInt8 :=
  if key = 0 then text else if key = 8 then text.dropLast else text ++ [key]

/-- The text edited by the keys. -/
def edited (keys : List UInt8) : List UInt8 := keys.foldl press []

/-- The maximal words without a space. -/
def words (text : List UInt8) : List (List UInt8) := (text.splitOnP (· == 32)).filter (· ≠ [])

/-- The most characters there are on the line while `keys` are pressed, from `text` on. -/
def reached (text : List UInt8) (keys : List UInt8) : ℕ :=
  (keys.inits.map fun front => (front.foldl press text).length).foldr max 0

/-- The text on the line, blanks up to index `reach`, and what was there before. -/
def laid (blank : UInt8) (text : List UInt8) (reach : ℕ) (old : Buffer) : Buffer := fun a =>
  if _h : a < text.length then text[a] else if a < reach then blank else old a

section

variable {blank key : UInt8} {text keys : List UInt8} {reach size : ℕ} {old : Buffer}

theorem reached_cons : reached text (key :: keys) = max text.length (reached (press text key) keys) := by
  simp only [reached, List.inits_cons, List.map_cons, List.foldr_cons, List.foldl_nil, List.map_map]
  rfl

theorem length_le_reached : text.length ≤ reached text keys := by
  cases keys with
  | nil => simp [reached]
  | cons key keys =>
    rw [reached_cons]
    exact le_max_left _ _

theorem laid_append : Function.update (laid blank text reach old) text.length key =
    laid blank (text ++ [key]) (max reach (text.length + 1)) old := by
  funext a
  rw [Function.update_apply, laid, laid]
  rcases lt_trichotomy a text.length with ha | rfl | ha
  · rw [if_neg (by omega), dif_pos ha, dif_pos (by simp; omega), List.getElem_append_left ha]
  · rw [if_pos rfl, dif_pos (by simp), List.getElem_append_right le_rfl]
    simp
  · rw [if_neg (by omega), dif_neg (by omega), dif_neg (by simp; omega)]
    congr 1
    rw [eq_iff_iff, lt_max_iff]
    omega

theorem laid_dropLast (h : text.length ≤ reach) (hne : text ≠ []) :
    Function.update (laid blank text reach old) (text.length - 1) blank =
      laid blank text.dropLast reach old := by
  have hpos := List.length_pos_iff.mpr hne
  funext a
  rw [Function.update_apply, laid, laid]
  rcases lt_trichotomy a (text.length - 1) with ha | rfl | ha
  · rw [if_neg (by omega), dif_pos (by omega), dif_pos (by rwa [List.length_dropLast]), List.getElem_dropLast]
  · rw [if_pos rfl, dif_neg (by rw [List.length_dropLast]; omega), if_pos (by omega)]
  · rw [if_neg (by omega), dif_neg (by omega), dif_neg (by rw [List.length_dropLast]; omega)]

/-- **What the line holds after the keys**: the text edited, blanks where there was more of it, and behind
them what was there before. -/
theorem edit_line_eq (hkeys : 10 ∉ keys) (hreach : text.length ≤ reach) (hsize : reach ≤ size) :
    edit_line blank size (keys ++ [10]) text.length (laid blank text reach old) =
      if reached text keys ≤ size then
        .ok ((keys.foldl press text).length,
          laid blank (keys.foldl press text) (max reach (reached text keys)) old)
      else .error .outOfBounds := by
  induction keys generalizing text reach with
  | nil =>
    have hnil : reached text [] = text.length := by simp [reached]
    rw [hnil, if_pos (hreach.trans hsize), max_eq_left hreach, List.nil_append, edit_line, if_pos rfl,
      List.foldl_nil]
  | cons key keys ih =>
    have hrest : 10 ∉ keys := fun h => hkeys (List.mem_cons_of_mem _ h)
    have hkey : key ≠ 10 := fun h => hkeys (h ▸ List.mem_cons_self ..)
    rw [List.cons_append, edit_line, if_neg hkey, reached_cons, List.foldl_cons]
    have hlen : (press text key).length ≤ reached (press text key) keys := length_le_reached
    by_cases h0 : key = 0
    · have hpress : press text key = text := by rw [press, if_pos h0]
      rw [hpress] at hlen ⊢
      rw [if_pos h0, ih hrest hreach hsize, max_eq_right hlen]
    rw [if_neg h0]
    by_cases h8 : key = 8
    · have hpress : press text key = text.dropLast := by rw [press, if_neg h0, if_pos h8]
      rw [hpress] at hlen ⊢
      rw [if_pos h8]
      by_cases hne : text = []
      · subst hne
        rw [List.dropLast_nil] at hlen ⊢
        rw [if_pos List.length_nil, ih hrest hreach hsize, max_eq_right hlen]
      · have hpos := List.length_pos_iff.mpr hne
        have hdrop : text.dropLast.length = text.length - 1 := List.length_dropLast
        rw [if_neg (by omega), laid_dropLast hreach hne, ← hdrop, ih hrest (by omega) hsize]
        have hle : max text.length (reached text.dropLast keys) ≤ size ↔
          reached text.dropLast keys ≤ size := by
          rw [max_le_iff, and_iff_right (by omega)]
        have hmax : max reach (max text.length (reached text.dropLast keys)) =
            max reach (reached text.dropLast keys) := by
          rw [← max_assoc, max_eq_left hreach]
        simp only [hle, hmax]
    · have hpress : press text key = text ++ [key] := by rw [press, if_neg h0, if_neg h8]
      have hlast : (text ++ [key]).length = text.length + 1 := List.length_append
      rw [hpress] at hlen ⊢
      rw [hlast] at hlen
      rw [if_neg h8]
      by_cases hfull : text.length < size
      · rw [if_pos hfull, laid_append, ← hlast, ih hrest (le_max_right _ _) (by omega)]
        have hmax : max text.length (reached (text ++ [key]) keys) = reached (text ++ [key]) keys :=
          max_eq_right (by omega)
        rw [hmax, max_assoc, hlast, max_eq_right hlen]
      · rw [if_neg hfull, if_neg]
        rw [max_le_iff]
        omega

end

/-! ## Words -/

section

variable {sp w t text : List UInt8}

/-- What is behind the first word. -/
def skipWord (text : List UInt8) : List UInt8 := (text.dropWhile (· == 32)).dropWhile (· != 32)

/-- What is behind the first `k` words. -/
def afterWords : (k : ℕ) → (text : List UInt8) → List UInt8
  | 0, text => text
  | k + 1, text => afterWords k (skipWord text)

/-- A text has no word, or it has one behind spaces, which it ends with or which a space follows. -/
theorem text_cases (text : List UInt8) : (∀ c ∈ text, c = 32) ∨
    ∃ sp w t, text = sp ++ w ++ t ∧ (∀ c ∈ sp, c = 32) ∧ w ≠ [] ∧ 32 ∉ w ∧ (t = [] ∨ ∃ t', t = 32 :: t') := by
  rcases @Segments.first_segment _ (· = 32) _ text with hall | ⟨sp, w, t, htext, hsp, hw, hfree, ht⟩
  · exact .inl hall
  · refine .inr ⟨sp, w, t, htext, hsp, hw, fun h32 => hfree 32 h32 rfl, ht.imp_right ?_⟩
    rintro ⟨d, t', rfl, rfl⟩
    exact ⟨t', rfl⟩

theorem words_eq (text : List UInt8) : words text = Segments.pieces (· == 32) text := rfl

theorem words_nil : words [] = [] := rfl

theorem words_spaces (h : ∀ c ∈ sp, c = 32) : words (sp ++ t) = words t := by
  rw [words_eq, words_eq]
  exact Segments.pieces_separators fun c hc => by simpa using h c hc

theorem words_space : words (32 :: t) = words t := @words_spaces [32] t (by simp)

theorem words_word (hw : w ≠ []) (h32 : 32 ∉ w) (ht : t = [] ∨ ∃ t', t = 32 :: t') :
    words (w ++ t) = w :: words t := by
  have hfree : ∀ c ∈ w, (c == 32) = false := fun c hc => by
    rw [beq_eq_false_iff_ne]
    exact fun he => h32 (he ▸ hc)
  rcases ht with rfl | ⟨t', rfl⟩
  · rw [List.append_nil, words_nil, words_eq, Segments.pieces_last hw hfree]
  · rw [words_space, words_eq, words_eq, Segments.pieces_cons hw hfree rfl]

theorem skipWord_eq (hsp : ∀ c ∈ sp, c = 32) (hw : w ≠ []) (h32 : 32 ∉ w) (ht : t = [] ∨ ∃ t', t = 32 :: t') :
    skipWord (sp ++ w ++ t) = t := by
  obtain ⟨c, w', rfl⟩ := List.exists_cons_of_ne_nil hw
  have hc : c ≠ 32 := fun he => h32 (he ▸ List.mem_cons_self ..)
  rw [skipWord, List.append_assoc, List.dropWhile_append_of_pos fun c hc => by simpa using hsp c hc,
    List.cons_append,
    List.dropWhile_cons_of_neg (by simpa using hc), ← List.cons_append, List.dropWhile_append_of_pos]
  · rcases ht with rfl | ⟨t', rfl⟩
    · rfl
    · rw [List.dropWhile_cons_of_neg (by simp)]
  · intro d hd
    simpa using fun he : d = 32 => h32 (he ▸ hd)

end

/-! ## The tokeniser -/

theorem custom_strchr_iff {str : List UInt8} {c : UInt8} : custom_strchr str c = true ↔ c ∈ str := by
  induction str with
  | nil => simp [custom_strchr]
  | cons a str ih =>
    rw [custom_strchr]
    split_ifs with h
    · simp [h]
    · rw [ih, List.mem_cons, or_iff_right fun he => h he.symm]

/-- Delimiters up to a zero. -/
def Blank (delim m : List UInt8) : Prop := ∃ r, m.dropWhile (isDelim delim) = 0 :: r

/-- Behind the delimiters at the front there is a zero, or another delimiter. -/
def Closes (delim m : List UInt8) : Prop := ∃ c ∈ m.dropWhile (isDelim delim), c = 0 ∨ isDelim delim c = true

/-- A zero, or a delimiter that `next` follows. -/
def Ends (delim : List UInt8) (next : List UInt8 → Prop) (m : List UInt8) : Prop :=
  ∃ d r, m = d :: r ∧ (d = 0 ∨ isDelim delim d = true ∧ next r)

/-- No word has a byte that lies behind `delim` at the call that cuts the word off. -/
def Uncut (behind : ℕ → List UInt8) (ws : List (List UInt8)) : Prop :=
  ∀ k w, ws[k]? = some w → ∀ c ∈ w, c ∉ behind k

/-- What may be behind a text in memory, when the first `places` of its words are taken: with fewer words,
delimiters up to a zero behind the last one; else a zero or a delimiter behind the last one that is taken, and
behind that an end of the next token. -/
def Tail (behind : ℕ → List UInt8) (places : ℕ) (t u : List UInt8) : Prop :=
  if (words t).length < places then
    if words t = [] then Blank (32 :: behind 0) (t ++ u)
    else Ends (32 :: behind ((words t).length - 1)) (Blank (32 :: behind (words t).length))
      (afterWords (words t).length t ++ u)
  else Ends (32 :: behind (places - 1)) (Closes (32 :: behind places)) (afterWords places t ++ u)

section

variable {calls : ℕ → List UInt8} {behind delim sp w t u m m' args : List UInt8} {c d : UInt8}
  {token next : Option (List UInt8)}

theorem isDelim_iff : isDelim (32 :: behind) c = true ↔ c = 32 ∨ c ≠ 0 ∧ c ∈ behind := by
  rw [isDelim, Bool.and_eq_true, decide_eq_true_eq, custom_strchr_iff, List.mem_cons]
  constructor
  · rintro ⟨h0, rfl | h⟩
    · exact .inl rfl
    · exact .inr ⟨h0, h⟩
  · rintro (rfl | ⟨h0, h⟩)
    · exact ⟨by decide, .inl rfl⟩
    · exact ⟨h0, .inr h⟩

theorem inToken_eq_false_iff : inToken delim c = false ↔ c = 0 ∨ isDelim delim c = true := by
  rw [inToken, isDelim]
  by_cases h0 : c = 0
  · simp [h0]
  · simp [h0]

theorem not_isDelim_zero : isDelim delim 0 = false := rfl

theorem isDelim_of_mem (h0 : 0 ∉ t) (hc : c ∈ t) (h : c ∈ delim) : isDelim delim c = true := by
  have hne : c ≠ 0 := fun he => h0 (he ▸ hc)
  simp [isDelim, hne, custom_strchr_iff, h]

theorem inToken_of_not_mem (h0 : 0 ∉ t) (hc : c ∈ t) (h : c ∉ delim) : inToken delim c = true := by
  rw [← Bool.not_eq_false, inToken_eq_false_iff]
  rintro (rfl | hdelim)
  · exact h0 hc
  · rw [isDelim, Bool.and_eq_true, custom_strchr_iff] at hdelim
    exact h hdelim.2

/-- A call of `strtok` with a word at the front of the memory, or behind spaces. -/
theorem strtok_word (hsp : ∀ c ∈ sp, isDelim delim c = true) (hw : w ≠ [])
    (htoken : ∀ c ∈ w, inToken delim c = true) (hd : inToken delim d = false) :
    strtok delim (some (sp ++ w ++ d :: m)) = .ok (some w, if d ≠ 0 then some m else none) := by
  obtain ⟨c, w', rfl⟩ := List.exists_cons_of_ne_nil hw
  have hc := htoken c (List.mem_cons_self ..)
  have hcd : ¬ isDelim delim c = true := fun h => by
    rw [inToken_eq_false_iff.mpr (.inr h)] at hc
    exact absurd hc (by simp)
  have hc0 : c ≠ 0 := fun h => by
    rw [inToken_eq_false_iff.mpr (.inl h)] at hc
    exact absurd hc (by simp)
  have hskip : (sp ++ (c :: w') ++ d :: m).dropWhile (isDelim delim) = c :: (w' ++ d :: m) := by
    rw [List.append_assoc, List.dropWhile_append_of_pos hsp, List.cons_append, List.dropWhile_cons_of_neg hcd]
  have hdrop : (c :: (w' ++ d :: m)).dropWhile (inToken delim) = d :: m := by
    rw [← List.cons_append, List.dropWhile_append_of_pos htoken, List.dropWhile_cons_of_neg (by simp [hd])]
  have htake : (c :: (w' ++ d :: m)).takeWhile (inToken delim) = c :: w' := by
    rw [← List.cons_append, List.takeWhile_append_of_pos htoken, List.takeWhile_cons_of_neg (by simp [hd]),
      List.append_nil]
  rw [strtok, hskip]
  simp only [hc0, if_false, hdrop, htake]

/-- A token has delimiters or nothing before it, is made of its characters, and ends. -/
theorem strtok_some (h : strtok delim (some m) = .ok (some w, next)) : ∃ sp d r, m = sp ++ w ++ d :: r ∧
    (∀ c ∈ sp, isDelim delim c = true) ∧ w ≠ [] ∧ (∀ c ∈ w, inToken delim c = true) ∧
    inToken delim d = false ∧ next = if d ≠ 0 then some r else none := by
  rw [strtok] at h
  have hsplit : m.takeWhile (isDelim delim) ++ m.dropWhile (isDelim delim) = m :=
    List.takeWhile_append_dropWhile
  rcases hskip : m.dropWhile (isDelim delim) with _ | ⟨c, str⟩
  · rw [hskip] at h
    exact absurd h (by simp)
  · rw [hskip] at h hsplit
    have hword : (c :: str).takeWhile (inToken delim) ++ (c :: str).dropWhile (inToken delim) = c :: str :=
      List.takeWhile_append_dropWhile
    simp only at h
    split_ifs at h with h0
    · exact absurd h (by simp)
    · rcases hdrop : (c :: str).dropWhile (inToken delim) with _ | ⟨d, r⟩
      · rw [hdrop] at h
        exact absurd h (by simp)
      · rw [hdrop] at h hword
        have hd := List.head?_dropWhile_not (inToken delim) (c :: str)
        rw [hdrop] at hd
        have hc := List.head?_dropWhile_not (isDelim delim) m
        rw [hskip] at hc
        have hin : inToken delim c = true := by
          rw [← Bool.not_eq_false, inToken_eq_false_iff]
          rintro (hzero | hdelim)
          · exact h0 hzero
          · exact absurd hdelim (by simpa using hc)
        simp only [Except.ok.injEq, Prod.mk.injEq, Option.some.injEq] at h
        obtain ⟨rfl, rfl⟩ := h
        refine ⟨m.takeWhile (isDelim delim), d, r, ?_, fun c hc => List.mem_takeWhile_imp hc, ?_,
          fun c hc => List.mem_takeWhile_imp hc, by simpa using hd, rfl⟩
        · rw [List.append_assoc, hword, hsplit]
        · rw [List.takeWhile_cons_of_pos hin]
          exact List.cons_ne_nil _ _

theorem strtok_none : (∃ next, strtok delim (some m) = .ok (none, next)) ↔ Blank delim m := by
  rw [strtok, Blank]
  rcases hskip : m.dropWhile (isDelim delim) with _ | ⟨c, str⟩
  · simp
  · by_cases h0 : c = 0
    · simp [h0]
    · rcases hdrop : (c :: str).dropWhile (inToken delim) with _ | ⟨d, r⟩
      · simp [h0, hdrop]
      · simp [h0, hdrop]

/-- A call of `strtok` returns. -/
theorem strtok_returns : (∃ reply, strtok delim (some m) = .ok reply) ↔ Closes delim m := by
  rw [strtok, Closes]
  rcases hskip : m.dropWhile (isDelim delim) with _ | ⟨c, str⟩
  · simp
  · by_cases h0 : c = 0
    · simp [h0]
    · simp only [h0, if_false, ← inToken_eq_false_iff]
      rcases hdrop : (c :: str).dropWhile (inToken delim) with _ | ⟨d, r⟩
      · rw [List.dropWhile_eq_nil_iff] at hdrop
        refine iff_of_false (by simp) fun ⟨d, hd, hfalse⟩ => ?_
        rw [hdrop d hd] at hfalse
        exact absurd hfalse (by simp)
      · refine iff_of_true ⟨_, rfl⟩ ⟨d, ?_, ?_⟩
        · have : d ∈ (c :: str).dropWhile (inToken delim) := by rw [hdrop]; exact List.mem_cons_self ..
          exact (List.dropWhile_sublist _).subset this
        · have hd := List.head?_dropWhile_not (inToken delim) (c :: str)
          rw [hdrop] at hd
          simpa using hd

/-- The token is the word at the front of a text exactly when no character of it delimits, and the memory
behind it goes on with one that does, or a zero. -/
theorem strtok_text_iff (hsp : ∀ c ∈ sp, c = 32) (hw : w ≠ []) (h32 : 32 ∉ w) (h0 : 0 ∉ w) :
    strtok (32 :: behind) (some (sp ++ w ++ m)) = .ok (some w, next) ↔ (∀ c ∈ w, c ∉ behind) ∧
      ∃ d r, m = d :: r ∧ inToken (32 :: behind) d = false ∧ next = if d ≠ 0 then some r else none := by
  have hspaces : ∀ c ∈ sp, isDelim (32 :: behind) c = true := fun c hc => isDelim_iff.mpr (.inl (hsp c hc))
  constructor
  · intro h
    obtain ⟨sp', d, r, hm, hsp', -, htoken, hd, hnext⟩ := strtok_some h
    obtain ⟨c, w', rfl⟩ := List.exists_cons_of_ne_nil hw
    have hc : ¬ isDelim (32 :: behind) c = true := fun hdelim => by
      have := htoken c (List.mem_cons_self ..)
      rw [inToken_eq_false_iff.mpr (.inr hdelim)] at this
      exact absurd this (by simp)
    -- both ways to write the memory start with its delimiters
    have hdrop := congrArg (List.dropWhile (isDelim (32 :: behind))) hm
    rw [List.append_assoc, List.append_assoc, List.dropWhile_append_of_pos hspaces,
      List.dropWhile_append_of_pos hsp',
      List.cons_append, List.cons_append, List.dropWhile_cons_of_neg hc, List.dropWhile_cons_of_neg hc,
        List.cons.injEq, and_iff_right rfl, List.append_cancel_left_eq] at hdrop
    refine ⟨fun b hb hbehind => ?_, d, r, hdrop, hd, hnext⟩
    have hb0 : b ≠ 0 := fun he => h0 (he ▸ hb)
    have := htoken b hb
    rw [inToken_eq_false_iff.mpr (.inr (isDelim_iff.mpr (.inr ⟨hb0, hbehind⟩)))] at this
    exact absurd this (by simp)
  · rintro ⟨hbehind, d, r, rfl, hd, rfl⟩
    refine strtok_word hspaces hw (fun c hc => ?_) hd
    by_contra hfalse
    rw [Bool.not_eq_true, inToken_eq_false_iff] at hfalse
    rcases hfalse with rfl | hdelim
    · exact h0 hc
    · rcases isDelim_iff.mp hdelim with rfl | ⟨-, hmem⟩
      · exact h32 hc
      · exact hbehind c hc hmem

theorem uncut_cons {ws : List (List UInt8)} : Uncut calls (w :: ws) ↔
    (∀ c ∈ w, c ∉ calls 0) ∧ Uncut (nextCalls calls) ws := by
  constructor
  · exact fun h => ⟨h 0 w rfl, fun k v hv => h (k + 1) v hv⟩
  · rintro ⟨h0, h⟩ k v hv
    cases k with
    | zero => exact Option.some.inj hv ▸ h0
    | succ k => exact h k v hv

theorem uncut_nil : Uncut calls [] := fun _ _ h => absurd h (by simp)

theorem collect_zero {str : Option (List UInt8)} : collect_args calls 0 str = .ok [] ↔
    ∃ reply, strtok (32 :: calls 0) str = .ok reply := by
  rw [collect_args]
  rcases strtok (32 :: calls 0) str with t | reply
  · simp
  · simp

theorem collect_none (calls : ℕ → List UInt8) (places : ℕ) : collect_args calls places none = .ok [] := by
  cases places <;> rfl

theorem collect_nil {places : ℕ} : collect_args calls (places + 1) (some m) = .ok [] ↔
    Blank (32 :: calls 0) m := by
  rw [← strtok_none, collect_args]
  rcases strtok (32 :: calls 0) (some m) with t | ⟨_ | token, next⟩
  · simp
  · simp
  · rcases hc : collect_args (nextCalls calls) places next with t | args
    · simp [hc]
    · simp [hc]

theorem collect_cons {places : ℕ} {args : List (List UInt8)} :
    collect_args calls (places + 1) (some m) = .ok (w :: args) ↔
      ∃ next, strtok (32 :: calls 0) (some m) = .ok (some w, next) ∧
        collect_args (nextCalls calls) places next = .ok args := by
  rw [collect_args]
  rcases strtok (32 :: calls 0) (some m) with t | ⟨_ | token, next⟩
  · simp
  · simp
  · rcases hc : collect_args (nextCalls calls) places next with t | args'
    · simp only [hc, Except.ok.injEq, Prod.mk.injEq, Option.some.injEq]
      refine iff_of_false (by simp) ?_
      rintro ⟨next', ⟨-, rfl⟩, h⟩
      rw [hc] at h
      exact absurd h (by simp)
    · simp only [hc, Except.ok.injEq, List.cons.injEq, Prod.mk.injEq, Option.some.injEq]
      constructor
      · rintro ⟨rfl, rfl⟩
        exact ⟨next, ⟨rfl, rfl⟩, hc⟩
      · rintro ⟨next', ⟨rfl, rfl⟩, h⟩
        exact ⟨rfl, Except.ok.inj (hc.symm.trans h)⟩

/-- A space ends a word. -/
theorem ends_space {next : List UInt8 → Prop} : Ends (32 :: behind) next (32 :: m) ↔ next m := by
  constructor
  · rintro ⟨d, r, he, h⟩
    obtain ⟨rfl, rfl⟩ := List.cons.inj he
    exact (h.resolve_left (by decide)).2
  · exact fun h => ⟨32, m, rfl, .inr ⟨isDelim_iff.mpr (.inl rfl), h⟩⟩

/-- A text without a word. -/
theorem collect_spaces {places : ℕ} (h : ∀ c ∈ t, c = 32) :
    collect_args calls (places + 1) (some (t ++ u)) = .ok ((words t).take (places + 1)) ↔
      Uncut calls ((words t).take (places + 1)) ∧ Tail calls (places + 1) t u := by
  have hwords : words t = [] := by
    have := words_spaces (t := []) h
    rwa [List.append_nil, words_nil] at this
  rw [hwords, List.take_nil, collect_nil, Tail, hwords, and_iff_right uncut_nil]
  simp

/-- The first word of a text, and then the others. -/
theorem collect_word {places : ℕ} (hsp : ∀ c ∈ sp, c = 32) (hw : w ≠ []) (h32 : 32 ∉ w) (h0 : 0 ∉ w)
    (ht : t = [] ∨ ∃ t', t = 32 :: t') :
    collect_args calls (places + 1) (some (sp ++ w ++ t ++ u)) =
        .ok ((words (sp ++ w ++ t)).take (places + 1)) ↔
      (∀ c ∈ w, c ∉ calls 0) ∧ Ends (32 :: calls 0)
        (fun r => collect_args (nextCalls calls) places (some r) = .ok ((words t).take places)) (t ++ u) := by
  rw [List.append_assoc sp w t, words_spaces hsp, words_word hw h32 ht, List.take_succ_cons, collect_cons,
    ← List.append_assoc, List.append_assoc _ t u]
  simp only [strtok_text_iff hsp hw h32 h0]
  constructor
  · rintro ⟨next, ⟨hbehind, d, r, hm, hd, rfl⟩, hrest⟩
    refine ⟨hbehind, d, r, hm, ?_⟩
    rcases inToken_eq_false_iff.mp hd with rfl | hdelim
    · exact .inl rfl
    · have hne : d ≠ 0 := by
        rintro rfl
        exact absurd hdelim (by simp [not_isDelim_zero])
      rw [if_pos hne] at hrest
      exact .inr ⟨hdelim, hrest⟩
  · rintro ⟨hbehind, d, r, hm, rfl | ⟨hdelim, hrest⟩⟩
    · -- the memory goes on with a zero: the text has ended
      obtain rfl : t = [] := by
        rcases ht with rfl | ⟨t', rfl⟩
        · rfl
        · exact absurd (List.cons.inj hm).1 (by decide)
      refine ⟨_, ⟨hbehind, 0, r, hm, rfl, rfl⟩, ?_⟩
      rw [if_neg (by decide), collect_none, words_nil, List.take_nil]
    · have hne : d ≠ 0 := by
        rintro rfl
        exact absurd hdelim (by simp [not_isDelim_zero])
      refine ⟨_, ⟨hbehind, d, r, hm, inToken_eq_false_iff.mpr (.inr hdelim), rfl⟩, ?_⟩
      rwa [if_pos hne]

/-- Behind the last word of a text. -/
theorem tail_last {places : ℕ} (hsp : ∀ c ∈ sp, c = 32) (hw : w ≠ []) (h32 : 32 ∉ w) :
    Tail calls (places + 1) (sp ++ w) u ↔
      Ends (32 :: calls 0) (fun r => collect_args (nextCalls calls) places (some r) = .ok []) u := by
  have hwords : words (sp ++ w) = [w] := by
    rw [words_spaces hsp, ← List.append_nil w, words_word hw h32 (.inl rfl), words_nil, List.append_nil]
  have hafter : afterWords 1 (sp ++ w) = [] := by
    rw [← List.append_nil (sp ++ w)]
    exact skipWord_eq hsp hw h32 (.inl rfl)
  rw [Tail, hwords]
  cases places with
  | zero =>
    rw [if_neg (by simp), hafter, List.nil_append]
    simp only [collect_zero, strtok_returns]
    rfl
  | succ places =>
    rw [if_pos (by simp), if_neg (List.cons_ne_nil _ _), List.length_singleton, hafter, List.nil_append]
    simp only [collect_nil]
    rfl

/-- A word with another place behind it. -/
theorem tail_word {places : ℕ} (hsp : ∀ c ∈ sp, c = 32) (hw : w ≠ []) (h32 : 32 ∉ w) :
    Tail calls (places + 2) (sp ++ w ++ 32 :: t) u ↔ Tail (nextCalls calls) (places + 1) t u := by
  have hwords : words (sp ++ w ++ 32 :: t) = w :: words t := by
    rw [List.append_assoc, words_spaces hsp, words_word hw h32 (.inr ⟨t, rfl⟩), words_space]
  have hafter : ∀ k, afterWords (k + 2) (sp ++ w ++ 32 :: t) = afterWords (k + 1) t := by
    intro k
    rw [afterWords, skipWord_eq hsp hw h32 (.inr ⟨t, rfl⟩)]
    rfl
  rw [Tail, Tail, hwords, List.length_cons, if_neg (List.cons_ne_nil _ _)]
  rcases hn : words t with _ | ⟨v, ws⟩
  · have hone : afterWords 1 (sp ++ w ++ 32 :: t) = 32 :: t := skipWord_eq hsp hw h32 (.inr ⟨t, rfl⟩)
    rw [if_pos (by simp), if_pos (by simp), if_pos rfl, List.length_nil, Nat.zero_add, hone, List.cons_append,
      ends_space]
    rfl
  · rw [if_neg (List.cons_ne_nil v ws), List.length_cons, hafter, hafter]
    by_cases hlt : ws.length + 1 < places + 1
    · rw [if_pos hlt, if_pos (by omega)]
      rfl
    · rw [if_neg hlt, if_neg (by omega)]
      rfl

/-- **When the tokeniser finds the words of a text.** -/
theorem collect_args_iff {places : ℕ} (h0 : 0 ∉ t) :
    collect_args calls (places + 1) (some (t ++ u)) = .ok ((words t).take (places + 1)) ↔
      Uncut calls ((words t).take (places + 1)) ∧ Tail calls (places + 1) t u := by
  induction places generalizing calls t u with
  | zero =>
    rcases text_cases t with hspaces | ⟨sp, w, t, rfl, hsp, hw, h32, ht⟩
    · exact collect_spaces hspaces
    have h0w : 0 ∉ w := fun h => h0 (by simp [h])
    rw [collect_word hsp hw h32 h0w ht, List.append_assoc, words_spaces hsp, words_word hw h32 ht,
      List.take_succ_cons, uncut_cons, List.take_zero, and_iff_left uncut_nil]
    refine and_congr_right fun _ => ?_
    rw [← List.append_assoc]
    rcases ht with rfl | ⟨t', rfl⟩
    · rw [List.append_nil, List.nil_append, tail_last hsp hw h32]
    · have hone : afterWords 1 (sp ++ w ++ 32 :: t') = 32 :: t' := skipWord_eq hsp hw h32 (.inr ⟨t', rfl⟩)
      have hmany : ¬ (words (sp ++ w ++ 32 :: t')).length < 1 := by
        rw [List.append_assoc, words_spaces hsp, words_word hw h32 (.inr ⟨t', rfl⟩), List.length_cons]
        omega
      rw [Tail, if_neg hmany, hone, List.cons_append, ends_space, ends_space, collect_zero, strtok_returns]
      rfl
  | succ places ih =>
    rcases text_cases t with hspaces | ⟨sp, w, t, rfl, hsp, hw, h32, ht⟩
    · exact collect_spaces hspaces
    have h0w : 0 ∉ w := fun h => h0 (by simp [h])
    rw [collect_word hsp hw h32 h0w ht, List.append_assoc, words_spaces hsp, words_word hw h32 ht,
      List.take_succ_cons, uncut_cons, and_assoc]
    refine and_congr_right fun _ => ?_
    rw [← List.append_assoc]
    rcases ht with rfl | ⟨t', rfl⟩
    · rw [List.append_nil, List.nil_append, tail_last hsp hw h32, words_nil, List.take_nil,
        and_iff_right uncut_nil]
    · have h0t : 0 ∉ t' := fun h => h0 (by simp [h])
      rw [List.cons_append, ends_space, words_space, ih h0t, tail_word hsp hw h32]

end

/-! ## The arguments -/

/-- What `buff` holds behind the text typed: blanks from the furthest index reached, and old bytes. -/
def leftOnLine (keys : List UInt8) (old : Buffer) : List UInt8 :=
  List.replicate (reached [] keys - (edited keys).length) 32 ++
    (List.range' (reached [] keys) (2048 - reached [] keys)).map old

section

variable {keys text : List UInt8} {old : Buffer} {blank : UInt8} {reach : ℕ}

theorem laid_nil : laid blank [] 0 old = old := by
  funext a
  rw [laid, dif_neg (by simp), if_neg (Nat.not_lt_zero _)]

theorem line_eq (hreach : text.length ≤ reach) (hsize : reach ≤ 2048) :
    (List.range 2048).map (laid 32 text reach old) =
    text ++ (List.replicate (reach - text.length) 32 ++ (List.range' reach (2048 - reach)).map old) := by
  apply List.ext_getElem
  · simp only [List.length_map, List.length_range, List.length_append, List.length_replicate,
      List.length_range']
    omega
  · intro a ha _
    rw [List.length_map, List.length_range] at ha
    rw [List.getElem_map, List.getElem_range, laid]
    by_cases htext : a < text.length
    · rw [dif_pos htext, List.getElem_append_left htext]
    · rw [dif_neg htext, List.getElem_append_right (not_lt.mp htext)]
      by_cases hblank : a < reach
      · rw [if_pos hblank, List.getElem_append_left (by rw [List.length_replicate]; omega),
          List.getElem_replicate]
      · rw [if_neg hblank, List.getElem_append_right (by rw [List.length_replicate]; omega), List.getElem_map,
          List.getElem_range']
        congr 1
        rw [List.length_replicate]
        omega

theorem press_no_zero {key : UInt8} (h : 0 ∉ text) : 0 ∉ press text key := by
  rw [press]
  split_ifs with h0 h8
  · exact h
  · exact fun hmem => h (List.mem_of_mem_dropLast hmem)
  · intro hmem
    rcases List.mem_append.mp hmem with hmem | hmem
    · exact h hmem
    · exact h0 (List.mem_singleton.mp hmem).symm

theorem foldl_press_no_zero (h : 0 ∉ text) : 0 ∉ keys.foldl press text := by
  induction keys generalizing text with
  | nil => exact h
  | cons key keys ih => exact ih (press_no_zero h)

theorem foldl_length_le_reached : (keys.foldl press text).length ≤ reached text keys := by
  induction keys generalizing text with
  | nil => simp [reached]
  | cons key keys ih =>
    rw [reached_cons, List.foldl_cons]
    exact ih.trans (le_max_right _ _)

/-- **When the arguments are the words typed**: there are never more characters on the line than `buff` has
room for, none of the first three words has a byte that lies behind `delim` when it is cut off, and what is
behind the words ends them. -/
theorem command_args_iff (behind : ℕ → List UInt8) (old : Buffer) (hkeys : 10 ∉ keys) :
    command_args behind (keys ++ [10]) old = .ok ((words (edited keys)).take 3) ↔
      reached [] keys ≤ 2048 ∧ Uncut behind ((words (edited keys)).take 3) ∧
        Tail behind 3 (edited keys) (leftOnLine keys old) := by
  have hedit : edit_line 32 2048 (keys ++ [10]) 0 old = if reached [] keys ≤ 2048 then
      .ok ((edited keys).length, laid 32 (edited keys) (reached [] keys) old) else .error .outOfBounds := by
    have := @edit_line_eq 32 [] keys 0 2048 old hkeys le_rfl (Nat.zero_le _)
    rwa [laid_nil, List.length_nil, Nat.zero_max] at this
  rw [command_args, hedit]
  split_ifs with hsize
  · have hlen : (edited keys).length ≤ reached [] keys := foldl_length_le_reached
    simp only [line_eq hlen hsize]
    rw [and_iff_right hsize]
    exact collect_args_iff (foldl_press_no_zero List.not_mem_nil)
  · exact iff_of_false (by simp) fun h => hsize h.1

end

/-- `"cd ab"` on a line of zeros. -/
theorem command_args_clean :
    command_args (fun _ => []) ([99, 100, 32, 97, 98] ++ [10]) (fun _ => 0) = .ok [[99, 100], [97, 98]] :=
  (command_args_iff (fun _ => []) (fun _ => 0) (by decide)).mpr
    ⟨by decide, fun _ _ _ _ _ => List.not_mem_nil, by
      rw [Tail, if_pos (by decide), if_neg (by decide)]
      exact ⟨0, _, rfl, .inl rfl⟩⟩

/-- `"cd"` where the line has an `"x"` left. -/
theorem command_args_leftover : edited [99, 100] = [99, 100] ∧ words [99, 100] = [[99, 100]] ∧
    command_args (fun _ => []) ([99, 100] ++ [10]) (fun a => if a = 2 then 120 else 0) =
      .ok [[99, 100, 120]] := by
  refine ⟨by decide, by decide, ?_⟩
  decide +kernel

end KeropOS
