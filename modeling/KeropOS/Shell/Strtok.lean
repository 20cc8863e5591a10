import KeropOS.Lib.Segments
import KeropOS.Shell.Line

/-!
# The tokeniser, call by call
`strtok` of `user-shell.c` on the object that a string lies in, with the pointer it keeps between its calls
and the zeros it stores. A pointer is an index in the object, and `none` is `NULL`.

* `Tokens`: the object and `next_token`; `strtok`; `calls`: calls one after the other;
* `cut`: the object with a zero behind each of some segments;
* **`strtok_agrees`**: it is the `strtok` of the command line;
* **`strtok_splits`**: the tokens are the segments between delimiters.

A read behind the end of the object ends the calls with `Trap.outOfBounds`.
-/

namespace KeropOS

open Segments

namespace Tokeniser

/-! ## The code -/

/-- The object, and the static variable `next_token`. -/
structure Tokens where
  bytes : List UInt8
  next_token : Option ℕ

/-- How far a loop that advances `str` gets in the memory from `str` on. -/
def advance (goes_on : UInt8 → Bool) : List UInt8 → Except Trap ℕ
  | [] => .error .outOfBounds
  | c :: mem =>
    if goes_on c then
      match advance goes_on mem with
      | .error t => .error t
      | .ok n => .ok (n + 1)
    else .ok 0

/-- `strtok` from `str` on. -/
def strtok_from (delim : List UInt8) (bytes : List UInt8) (str : ℕ) : Except Trap (Option ℕ × Tokens) :=
  match advance (isDelim delim) (bytes.drop str) with
  | .error t => .error t
  | .ok skipped =>
    if bytes[str + skipped]? = some 0 then .ok (none, ⟨bytes, none⟩)
    else
      let token_start := str + skipped
      match advance (inToken delim) (bytes.drop token_start) with
      | .error t => .error t
      | .ok n =>
        if bytes[token_start + n]? ≠ some 0 then
          .ok (some token_start, ⟨bytes.set (token_start + n) 0, some (token_start + n + 1)⟩)
        else .ok (some token_start, ⟨bytes, none⟩)

def strtok (delim : List UInt8) (st : Tokens) (str : Option ℕ) : Except Trap (Option ℕ × Tokens) :=
  match str.or st.next_token with
  | none => .ok (none, st)
  | some str => strtok_from delim st.bytes str

/-- The string at a pointer. -/
def text_at (bytes : List UInt8) (p : ℕ) : List UInt8 := (bytes.drop p).takeWhile (· ≠ 0)

/-- A call with `str` and then calls with `NULL`, `n` in all: the tokens, and what they point at. -/
def calls (delim : List UInt8) : (n : ℕ) → (str : Option ℕ) → Tokens →
    Except Trap (List (Option (ℕ × List UInt8)) × Tokens)
  | 0, _, st => .ok ([], st)
  | n + 1, str, st =>
    match strtok delim st str with
    | .error t => .error t
    | .ok (token, st) =>
      match calls delim n none st with
      | .error t => .error t
      | .ok (tokens, st') => .ok (token.map (fun p => (p, text_at st.bytes p)) :: tokens, st')

/-! ## The property -/

/-- The object with a zero behind each segment. -/
def cut (bytes : List UInt8) (l : List (ℕ × List UInt8)) : List UInt8 :=
  l.foldl (fun bytes x => bytes.set (x.1 + x.2.length) 0) bytes

/-- Segments of a text that lies at index `p`. -/
def moved (p : ℕ) (l : List (ℕ × List UInt8)) : List (ℕ × List UInt8) := l.map fun x => (p + x.1, x.2)

/-- Wherever the text is left, the tokens are those in the list, and then there are none. -/
def Yields (delim t : List UInt8) (l : List (ℕ × List UInt8)) : Prop :=
  ∀ n bytes p next_token, bytes.drop p = t ++ [0] → ∃ next_token',
    calls delim n (some p) ⟨bytes, next_token⟩ =
    .ok ((List.range n).map fun k => (moved p l)[k]?, ⟨cut bytes ((moved p l).take n), next_token'⟩)

/-! ## One call -/

section

variable {delim bytes u w m t : List UInt8} {c d : UInt8} {p n : ℕ} {goes_on : UInt8 → Bool}

theorem advance_eq (hu : ∀ c ∈ u, goes_on c = true) (hd : goes_on d = false) :
    advance goes_on (u ++ d :: m) = .ok u.length := by
  induction u with
  | nil => simp [advance, hd]
  | cons c u ih =>
    have hrest := ih fun c hc => hu c (List.mem_cons_of_mem _ hc)
    simp [advance, hu c (List.mem_cons_self ..), hrest]

theorem getElem?_of_drop (h : bytes.drop p = u ++ d :: m) : bytes[p + u.length]? = some d := by
  rw [← List.getElem?_drop, h, List.getElem?_append_right le_rfl, Nat.sub_self]
  rfl

theorem drop_of_drop (h : bytes.drop p = u ++ m) : bytes.drop (p + u.length) = m := by
  rw [← List.drop_drop, h, List.drop_left]

/-- Only delimiters are left. -/
theorem strtok_from_end (h : bytes.drop p = u ++ 0 :: m) (hu : ∀ c ∈ u, isDelim delim c = true) :
    strtok_from delim bytes p = .ok (none, ⟨bytes, none⟩) := by
  unfold strtok_from
  simp only [h, advance_eq hu not_isDelim_zero, getElem?_of_drop h, if_true]

/-- A token is left. -/
theorem strtok_from_token (h : bytes.drop p = u ++ w ++ d :: m) (hu : ∀ c ∈ u, isDelim delim c = true)
    (hw : w ≠ []) (hfree : ∀ c ∈ w, inToken delim c = true) (hd : inToken delim d = false) :
    strtok_from delim bytes p = .ok (some (p + u.length),
      if d ≠ 0 then ⟨bytes.set (p + u.length + w.length) 0, some (p + u.length + w.length + 1)⟩
      else ⟨bytes, none⟩) := by
  obtain ⟨c, w, rfl⟩ := List.exists_cons_of_ne_nil hw
  rw [List.append_assoc] at h
  have hc := hfree c (List.mem_cons_self ..)
  have hdelim : isDelim delim c = false := by
    by_contra hne
    rw [inToken_eq_false_iff.mpr (.inr (by simpa using hne))] at hc
    exact absurd hc (by simp)
  have hc0 : c ≠ 0 := by
    rintro rfl
    exact absurd hc (by simp [inToken])
  have hskip : advance (isDelim delim) (bytes.drop p) = .ok u.length := by
    rw [h, List.cons_append]
    exact advance_eq hu hdelim
  have hstart : bytes[p + u.length]? = some c := getElem?_of_drop (m := w ++ d :: m) h
  have hdrop : bytes.drop (p + u.length) = c :: w ++ d :: m := drop_of_drop h
  have hlength : advance (inToken delim) (bytes.drop (p + u.length)) = .ok (c :: w).length := by
    rw [hdrop]
    exact advance_eq hfree hd
  have hend : bytes[p + u.length + (c :: w).length]? = some d := getElem?_of_drop hdrop
  unfold strtok_from
  simp only [hskip, hstart, Option.some.injEq, hc0, if_false, hlength, hend, ne_eq]
  split_ifs <;> rfl

/-- The text at a token that a zero follows. -/
theorem text_at_eq (h : bytes.drop p = w ++ 0 :: m) (h0 : 0 ∉ w) : text_at bytes p = w := by
  have hw : ∀ c ∈ w, decide (c ≠ 0) = true := fun c hc => decide_eq_true fun he => h0 (he ▸ hc)
  rw [text_at, h, List.takeWhile_append_of_pos hw, List.takeWhile_cons_of_neg (by simp), List.append_nil]

/-- What a store at the end of a token leaves. -/
theorem drop_set (h : bytes.drop p = w ++ d :: m) :
    (bytes.set (p + w.length) 0).drop p = w ++ 0 :: m := by
  rw [List.drop_set, if_neg (by omega), h, Nat.add_sub_cancel_left, List.set_append_right _ _ le_rfl,
    Nat.sub_self]
  rfl

theorem advance_none (h : ∀ c ∈ m, goes_on c = true) : advance goes_on m = .error .outOfBounds := by
  induction m with
  | nil => rfl
  | cons c m ih =>
    have hrest := ih fun c hc => h c (List.mem_cons_of_mem _ hc)
    simp [advance, h c (List.mem_cons_self ..), hrest]

/-- A loop gets to the end of the object, or it stops at a character. -/
theorem stops_or_not (goes_on : UInt8 → Bool) (m : List UInt8) : (∀ c ∈ m, goes_on c = true) ∨
    ∃ u d r, m = u ++ d :: r ∧ (∀ c ∈ u, goes_on c = true) ∧ goes_on d = false := by
  induction m with
  | nil => exact .inl fun c hc => absurd hc List.not_mem_nil
  | cons c m ih =>
    by_cases hc : goes_on c = true
    · rcases ih with hall | ⟨u, d, r, rfl, hu, hd⟩
      · exact .inl (List.forall_mem_cons.mpr ⟨hc, hall⟩)
      · exact .inr ⟨c :: u, d, r, rfl, List.forall_mem_cons.mpr ⟨hc, hu⟩, hd⟩
    · exact .inr ⟨[], c, m, rfl, fun c hc => absurd hc List.not_mem_nil, by simpa using hc⟩

/-- What a store at the end of a token leaves behind it. -/
theorem drop_behind (h : bytes.drop p = w ++ d :: m) (x : UInt8) :
    (bytes.set (p + w.length) x).drop (p + w.length + 1) = m := by
  have hlt : p + w.length < p + (w.length + 1) := by omega
  rw [Nat.add_assoc, List.drop_set_of_lt hlt, ← List.drop_drop, h, List.drop_append]
  simp

/-- **The two models of `strtok` agree**: a token is the string at its pointer, and what is left the memory
from `next_token` on. -/
theorem strtok_agrees (delim bytes : List UInt8) (p : ℕ) : KeropOS.strtok delim (some (bytes.drop p)) =
    (strtok_from delim bytes p).map fun r =>
      (r.1.map (text_at r.2.bytes), r.2.next_token.map fun q => r.2.bytes.drop q) := by
  rcases stops_or_not (isDelim delim) (bytes.drop p) with hall | ⟨u, d, r, hdrop, hu, hd⟩
  · have hnil : (bytes.drop p).dropWhile (isDelim delim) = [] := List.dropWhile_eq_nil_iff.mpr hall
    simp only [KeropOS.strtok, hnil, strtok_from, advance_none hall]
    rfl
  by_cases hd0 : d = 0
  · subst hd0
    have hskip : (bytes.drop p).dropWhile (isDelim delim) = 0 :: r := by
      rw [hdrop, List.dropWhile_append_of_pos hu, List.dropWhile_cons_of_neg (by simp [hd])]
    rw [strtok_from_end hdrop hu]
    simp only [KeropOS.strtok, hskip, if_true]
    rfl
  have hdt : inToken delim d = true := by
    by_contra hne
    have := inToken_eq_false_iff.mp (by simpa using hne)
    simp [hd0, hd] at this
  rcases stops_or_not (inToken delim) (d :: r) with hall | ⟨w, e, m, hr, hw, he⟩
  · have hskip : (bytes.drop p).dropWhile (isDelim delim) = d :: r := by
      rw [hdrop, List.dropWhile_append_of_pos hu, List.dropWhile_cons_of_neg (by simp [hd])]
    have hnil : (d :: r).dropWhile (inToken delim) = [] := List.dropWhile_eq_nil_iff.mpr hall
    have hadvance : advance (isDelim delim) (bytes.drop p) = .ok u.length := by rw [hdrop, advance_eq hu hd]
    have hrest : advance (inToken delim) (bytes.drop (p + u.length)) = .error .outOfBounds := by
      rw [drop_of_drop hdrop, advance_none hall]
    have hd0' : ¬ (some d = some (0 : UInt8)) := by simpa using hd0
    simp only [KeropOS.strtok, hskip, hd0, if_false, hnil, strtok_from, hadvance, getElem?_of_drop hdrop,
      hd0', hrest]
    rfl
  · have hne : w ≠ [] := by
      rintro rfl
      obtain ⟨rfl, -⟩ := List.cons.inj hr
      exact absurd hdt (by simp [he])
    have hdrop' : bytes.drop p = u ++ w ++ e :: m := by rw [hdrop, hr, List.append_assoc]
    have htoken : bytes.drop (p + u.length) = w ++ e :: m := by rw [drop_of_drop hdrop, hr]
    have h0 : 0 ∉ w := fun h => absurd (hw 0 h) (by simp [inToken])
    rw [strtok_from_token hdrop' hu hne hw he, hdrop', strtok_word hu hne hw he]
    by_cases he0 : e = 0
    · subst he0
      simp [Except.map, text_at_eq htoken h0]
    · simp only [ne_eq, he0, not_false_eq_true, if_true, Except.map, Option.map_some, drop_behind htoken,
        text_at_eq (drop_set htoken) h0]

end

/-! ## All calls -/

section

variable {delim bytes s t u w : List UInt8} {d : UInt8} {p n : ℕ} {next_token : Option ℕ}
  {l : List (ℕ × List UInt8)}

theorem calls_done (delim bytes : List UInt8) (n : ℕ) :
    calls delim n none ⟨bytes, none⟩ = .ok (List.replicate n none, ⟨bytes, none⟩) := by
  induction n with
  | zero => rfl
  | succ n ih =>
    unfold calls
    simp only [strtok, Option.or_none, ih, Option.map_none, List.replicate_succ]

theorem calls_null (delim bytes : List UInt8) (n q : ℕ) :
    calls delim n none ⟨bytes, some q⟩ = calls delim n (some q) ⟨bytes, some q⟩ := by
  cases n with
  | zero => rfl
  | succ n => rfl

theorem calls_succ {token : Option ℕ} {st st' : Tokens} {tokens : List (Option (ℕ × List UInt8))}
    (hcall : strtok_from delim bytes p = .ok (token, st))
    (hrest : calls delim n none st = .ok (tokens, st')) :
    calls delim (n + 1) (some p) ⟨bytes, next_token⟩ =
      .ok (token.map (fun p => (p, text_at st.bytes p)) :: tokens, st') := by
  unfold calls
  simp only [strtok, Option.some_or, hcall, hrest]

theorem lookups_cons {α : Type} (x : α) (l : List α) (n : ℕ) :
    (List.range (n + 1)).map (fun k => (x :: l)[k]?) = some x :: (List.range n).map fun k => l[k]? := by
  rw [List.range_succ_eq_map, List.map_cons, List.map_map]
  rfl

theorem lookups_nil {α : Type} (n : ℕ) :
    (List.range n).map (fun k => ([] : List α)[k]?) = List.replicate n none := by
  simp

theorem yields_nil (h0 : 0 ∉ t) (h : ∀ c ∈ t, c ∈ delim) : Yields delim t [] := by
  intro n bytes p next_token hdrop
  cases n with
  | zero => exact ⟨next_token, rfl⟩
  | succ n =>
    have hcall := strtok_from_end hdrop fun c hc => isDelim_of_mem h0 hc (h c hc)
    refine ⟨none, ?_⟩
    rw [calls_succ hcall (calls_done delim bytes n), moved, List.map_nil, lookups_nil, List.replicate_succ]
    rfl

theorem yields_last (h0u : 0 ∉ u) (h0w : 0 ∉ w) (hu : ∀ c ∈ u, c ∈ delim) (hw : w ≠ [])
    (hfree : ∀ c ∈ w, c ∉ delim) : Yields delim (u ++ w) [(u.length, w)] := by
  intro n bytes p next_token hdrop
  cases n with
  | zero => exact ⟨next_token, rfl⟩
  | succ n =>
    have hcall := strtok_from_token hdrop (fun c hc => isDelim_of_mem h0u hc (hu c hc)) hw
      (fun c hc => inToken_of_not_mem h0w hc (hfree c hc)) rfl
    rw [if_neg (by simp)] at hcall
    have hrest : bytes.drop (p + u.length) = w ++ 0 :: [] :=
      drop_of_drop ((List.append_assoc ..).symm ▸ hdrop)
    have hsame : bytes.set (p + u.length + w.length) 0 = bytes := by
      obtain ⟨hlt, hzero⟩ := List.getElem?_eq_some_iff.mp (getElem?_of_drop hrest)
      conv_lhs => rw [← hzero]
      exact List.set_getElem_self hlt
    refine ⟨none, ?_⟩
    rw [calls_succ hcall (calls_done delim bytes n), moved, List.map_singleton, lookups_cons, lookups_nil,
      List.take_succ_cons, List.take_nil, Option.map_some, text_at_eq hrest h0w]
    simp only [cut, List.foldl_cons, List.foldl_nil, hsame]

theorem yields_cons (h0u : 0 ∉ u) (h0w : 0 ∉ w) (hu : ∀ c ∈ u, c ∈ delim) (hw : w ≠ [])
    (hfree : ∀ c ∈ w, c ∉ delim) (hd0 : d ≠ 0) (hd : d ∈ delim) (h : Yields delim t l) :
    Yields delim (u ++ w ++ d :: t)
      ((u.length, w) :: l.map fun x => (u.length + w.length + 1 + x.1, x.2)) := by
  intro n bytes p next_token hdrop
  cases n with
  | zero => exact ⟨next_token, rfl⟩
  | succ n =>
    have hdrop' : bytes.drop p = u ++ w ++ d :: (t ++ [0]) := by
      rw [hdrop, List.append_assoc, List.cons_append]
    have hdelim : inToken delim d = false :=
      inToken_eq_false_iff.mpr (.inr (isDelim_of_mem (t := [d]) (by simpa using hd0.symm) (by simp) hd))
    have hcall := strtok_from_token hdrop' (fun c hc => isDelim_of_mem h0u hc (hu c hc)) hw
      (fun c hc => inToken_of_not_mem h0w hc (hfree c hc)) hdelim
    rw [if_pos hd0] at hcall
    have htoken : bytes.drop (p + u.length) = w ++ d :: (t ++ [0]) :=
      drop_of_drop ((List.append_assoc ..).symm ▸ hdrop')
    have hset := drop_set htoken
    have hnext := drop_behind htoken 0
    obtain ⟨next_token', hrest⟩ := h n _ _ (some (p + u.length + w.length + 1)) hnext
    refine ⟨next_token', ?_⟩
    have hmoved : moved p ((u.length, w) :: l.map fun x => (u.length + w.length + 1 + x.1, x.2)) =
        (p + u.length, w) :: moved (p + u.length + w.length + 1) l := by
      simp only [moved, List.map_cons, List.map_map, Function.comp_def, List.cons.injEq, true_and]
      apply List.map_congr_left
      intro x _
      rw [← Nat.add_assoc, ← Nat.add_assoc, ← Nat.add_assoc]
    rw [calls_succ hcall ((calls_null ..).trans hrest), hmoved, lookups_cons, List.take_succ_cons,
      Option.map_some, text_at_eq hset h0w]
    rfl

/-- **The calls on a text that is left**: its first segment is the first token. -/
theorem calls_text (delim t : List UInt8) (h0 : 0 ∉ t) :
    ∃ l, Listed (· ∈ delim) t l ∧ Yields delim t l := by
  induction hlen : t.length using Nat.strong_induction_on generalizing t with
  | _ N ih =>
    rcases @first_segment _ (· ∈ delim) _ t with hall | ⟨u, w, v, rfl, hu, hw, hfree, hv⟩
    · exact ⟨[], .separators hall, yields_nil h0 hall⟩
    have h0u : 0 ∉ u := fun h => h0 (by simp [h])
    have h0w : 0 ∉ w := fun h => h0 (by simp [h])
    rcases hv with rfl | ⟨d, t, rfl, hd⟩
    · rw [List.append_nil]
      exact ⟨_, .last hu hw hfree, yields_last h0u h0w hu hw hfree⟩
    · have h0t : 0 ∉ t := fun h => h0 (by simp [h])
      have hd0 : d ≠ 0 := fun h => h0 (by simp [h])
      obtain ⟨l, hlisted, hyields⟩ := ih t.length (by rw [← hlen]; simp; omega) t h0t rfl
      exact ⟨_, .cons hu hw hfree hd hlisted, yields_cons h0u h0w hu hw hfree hd0 hd hyields⟩

theorem cut_length : (cut bytes l).length = bytes.length := by
  induction l generalizing bytes with
  | nil => rfl
  | cons x l ih => exact ih.trans List.length_set

/-- Only what is behind a segment is overwritten. -/
theorem cut_getElem? (bytes : List UInt8) (l : List (ℕ × List UInt8)) (a : ℕ) :
    (cut bytes l)[a]? = bytes[a]? ∨
    (cut bytes l)[a]? = some 0 ∧ ∃ x ∈ l, a = x.1 + x.2.length := by
  induction l generalizing bytes with
  | nil => exact .inl rfl
  | cons x l ih =>
    rcases ih (bytes.set (x.1 + x.2.length) 0) with h | ⟨hzero, y, hy, hay⟩
    · by_cases hx : x.1 + x.2.length = a ∧ a < bytes.length
      · refine .inr ⟨h.trans ?_, x, List.mem_cons_self .., hx.1.symm⟩
        rw [hx.1, List.getElem?_set_self hx.2]
      · refine .inl (h.trans ?_)
        rw [List.getElem?_set]
        split_ifs with he hlt
        · exact absurd ⟨he, he ▸ hlt⟩ hx
        · rw [he] at hlt
          exact (List.getElem?_eq_none (not_lt.mp hlt)).symm
        · rfl
    · exact .inr ⟨hzero, y, List.mem_cons_of_mem _ hy, hay⟩

/-- **`strtok` splits**: calls on a string give its segments between delimiters in their order, with what they
point at, and then `NULL`; they stay in the object of the string, and overwrite delimiters behind a token that
was returned. -/
theorem strtok_splits (delim s : List UInt8) (hs : 0 ∉ s) (next_token : Option ℕ) :
    ∃ l : List (ℕ × List UInt8), (l.Pairwise fun x y => x.1 < y.1) ∧
      (∀ p w, (p, w) ∈ l ↔ Segment (· ∈ delim) s p w) ∧
      ∀ n, ∃ bytes next_token', calls delim n (some 0) ⟨s ++ [0], next_token⟩ =
          .ok ((List.range n).map fun k => l[k]?, ⟨bytes, next_token'⟩) ∧
        bytes.length = (s ++ [0]).length ∧ ∀ a, bytes[a]? ≠ (s ++ [0])[a]? →
          bytes[a]? = some 0 ∧ (∃ c ∈ delim, s[a]? = some c) ∧ ∃ x ∈ l.take n, a = x.1 + x.2.length := by
  obtain ⟨l, hlisted, hyields⟩ := calls_text delim s hs
  refine ⟨l, hlisted.ordered.imp (fun h => by omega), fun p w => hlisted.mem_iff, fun n => ?_⟩
  obtain ⟨next_token', hcalls⟩ := hyields n (s ++ [0]) 0 next_token rfl
  have hmoved : moved 0 l = l := by
    simp only [moved, Nat.zero_add, Prod.mk.eta, List.map_id']
  rw [hmoved] at hcalls
  refine ⟨_, next_token', hcalls, cut_length, fun a ha => ?_⟩
  obtain ⟨hzero, x, hx, hax⟩ := (cut_getElem? (s ++ [0]) (l.take n) a).resolve_left ha
  have hseg := hlisted.sound x (List.mem_of_mem_take hx)
  refine ⟨hzero, ?_, x, hx, hax⟩
  by_cases hlt : a < s.length
  · have hc : s[a]? = some s[a] := List.getElem?_eq_getElem hlt
    exact ⟨s[a], hseg.behind _ (by rw [← hax, hc]), hc⟩
  · refine absurd ?_ ha
    have hpos := List.length_pos_iff.mpr hseg.nonempty
    have hlast := hseg.here (x.2.length - 1) (by omega)
    obtain ⟨hend, -⟩ := List.getElem?_eq_some_iff.mp hlast
    obtain rfl : a = s.length := by omega
    rw [hzero, List.getElem?_append_right le_rfl, Nat.sub_self]
    rfl

/-- `" ab c"` with spaces between. -/
theorem strtok_splits_two : ∃ l : List (ℕ × List UInt8), (l.Pairwise fun x y => x.1 < y.1) ∧
    (∀ p w, (p, w) ∈ l ↔ Segment (· ∈ [32]) [32, 97, 98, 32, 99] p w) ∧
    ∀ n, ∃ bytes next_token', calls [32] n (some 0) ⟨[32, 97, 98, 32, 99] ++ [0], none⟩ =
        .ok ((List.range n).map fun k => l[k]?, ⟨bytes, next_token'⟩) ∧
      bytes.length = 6 ∧ ∀ a, bytes[a]? ≠ ([32, 97, 98, 32, 99] ++ [0])[a]? →
        bytes[a]? = some 0 ∧ (∃ c ∈ ([32] : List UInt8), ([32, 97, 98, 32, 99] : List UInt8)[a]? = some c) ∧
          ∃ x ∈ l.take n, a = x.1 + x.2.length :=
  strtok_splits [32] [32, 97, 98, 32, 99] (by decide) none

example : (calls [32] 3 (some 0) ⟨[32, 97, 98, 32, 99] ++ [0], none⟩).toOption.map Prod.fst =
    some [some (1, [97, 98]), some (4, [99]), none] := by decide

end

end Tokeniser

end KeropOS
