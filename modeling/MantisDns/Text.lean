/-
Text as the control plane and the filter node handle it.

A string is the list of its Unicode scalar values (`Str`): that is a Rust
`str`, and a Python `str` without lone surrogates.  This file is the part of
the two standard libraries the development rests on:

* `lowerAscii`, `trimDots`, `stripPrefix` — `to_ascii_lowercase`,
  `trim_end_matches('.')` / `rstrip(".")` and `strip_prefix`;
* `isSpace`, `strip`, `splitlines`, `join` — Python's notion of white space
  and of lines, with the round trip `splitlines_join`;
* `CaseMap` — Python's `str.lower`, whose table of non-ASCII characters is a
  parameter;
* `utf8`, `decodeUtf8Replace` — encoding, and decoding with
  `errors="replace"`;
* `forall₂_of_mapM`, `mem_of_mapM`, `exists_of_mem_mapM`, `isSome_of_mapM`,
  `mapM_of_forall_isSome` — lists that are read element by element.
-/
import Mathlib

open List Option

/-- A string, as the list of its Unicode scalar values. -/
abbrev Str := List Char

/-- Literals stand for their characters. -/
instance : Coe String Str := ⟨String.toList⟩

namespace Text

variable {p s line rest : Str} {c : Char} {α β : Type} {f : α → Option β} {l : List α} {l' : List β}
  {a : α} {b : β}

/-- Membership in a list of strings. -/
instance decidableMemStr (s : Str) (l : List Str) : Decidable (s ∈ l) := inferInstance

/-- What a computation returns can be examined by running it. -/
instance decidableExistsSome (o : Option α) (P : α → Prop) [DecidablePred P] :
    Decidable (∃ a, o = some a ∧ P a) := inferInstanceAs (Decidable (∃ a ∈ o, P a))

/-! ### ASCII case -/

/-- `to_ascii_lowercase`. -/
def lowerAscii (s : Str) : Str := s.map Char.toLower

/-- Every character is ASCII. -/
def IsAscii (s : Str) : Prop := ∀ c ∈ s, c.toNat < 128

-- over the characters of the string; the default instance would go over all of `Char`
instance (s : Str) : Decidable (IsAscii s) :=
  List.decidableBAll (fun c : Char => c.toNat < 128) s

theorem toNat_toLower (c : Char) :
    c.toLower.toNat = if 65 ≤ c.toNat ∧ c.toNat ≤ 90 then c.toNat + 32 else c.toNat := by
  have hA : ('A'.val : UInt32).toNat = 65 := rfl
  have hZ : ('Z'.val : UInt32).toNat = 90 := rfl
  unfold Char.toLower
  simp only [ge_iff_le, UInt32.le_iff_toNat_le, hA, hZ]
  by_cases h : 65 ≤ c.val.toNat ∧ c.val.toNat ≤ 90
  · rw [dif_pos h, if_pos (show 65 ≤ c.toNat ∧ c.toNat ≤ 90 from h)]
    show (c.val + ('a'.val - 'A'.val)).toNat = c.val.toNat + 32
    rw [UInt32.toNat_add, show ('a'.val - 'A'.val : UInt32).toNat = 32 from rfl]
    exact Nat.mod_eq_of_lt (by omega)
  · rw [dif_neg h, if_neg (show ¬(65 ≤ c.toNat ∧ c.toNat ≤ 90) from h)]

theorem char_ext_toNat {a b : Char} (h : a.toNat = b.toNat) : a = b :=
  Char.ext (UInt32.toNat_inj.mp h)

@[simp] theorem toLower_toLower (c : Char) : c.toLower.toLower = c.toLower := by
  apply char_ext_toNat
  rw [toNat_toLower, toNat_toLower]
  by_cases h : 65 ≤ c.toNat ∧ c.toNat ≤ 90
  · rw [if_pos h, if_neg (by omega)]
  · rw [if_neg h, if_neg h]

@[simp] theorem toLower_eq_dot (c : Char) : c.toLower = '.' ↔ c = '.' := by
  have hdot : ('.' : Char).toNat = 46 := rfl
  constructor
  · intro h
    have hc := congrArg Char.toNat h
    rw [toNat_toLower, hdot] at hc
    apply char_ext_toNat
    rw [hdot]
    split at hc <;> omega
  · rintro rfl
    rfl

@[simp] theorem lowerAscii_append (s t : Str) :
    lowerAscii (s ++ t) = lowerAscii s ++ lowerAscii t := map_append

@[simp] theorem lowerAscii_idem (s : Str) : lowerAscii (lowerAscii s) = lowerAscii s := by
  rw [lowerAscii, lowerAscii, List.map_map]
  exact map_congr_left fun c _ => toLower_toLower c

/-! ### Trailing dots and prefixes -/

/-- `trim_end_matches('.')`, and Python's `rstrip(".")`. -/
def trimDots (s : Str) : Str := s.rdropWhile (· == '.')

/-- `strip_prefix`. -/
def stripPrefix (p s : Str) : Option Str :=
  if p.isPrefixOf s then some (s.drop p.length) else none

theorem stripPrefix_eq_some {t : Str} : stripPrefix p s = some t ↔ s = p ++ t := by
  unfold stripPrefix
  constructor
  · intro h
    split at h
    · next hp =>
      obtain ⟨u, rfl⟩ := List.isPrefixOf_iff_prefix.mp hp
      simpa using h
    · simp at h
  · rintro rfl
    rw [if_pos (List.isPrefixOf_iff_prefix.mpr (prefix_append p t))]
    simp

theorem stripPrefix_eq_none : stripPrefix p s = none ↔ ¬p <+: s := by
  rw [← List.isPrefixOf_iff_prefix]
  unfold stripPrefix
  split <;> simp_all

/-- `s[: -len(p)]` when `s.endswith(p)`. -/
def stripSuffix (p s : Str) : Option Str :=
  if p.isSuffixOf s then some (s.take (s.length - p.length)) else none

theorem trimDots_concat_dot (s : Str) : trimDots (s ++ ['.']) = trimDots s :=
  rdropWhile_concat_pos _ _ _ rfl

@[simp] theorem trimDots_append_replicate (s : Str) (k : ℕ) :
    trimDots (s ++ List.replicate k '.') = trimDots s := by
  induction k with
  | zero => simp
  | succ k ih =>
    rw [replicate_succ', ← append_assoc, trimDots_concat_dot, ih]

theorem trimDots_eq_self (h : s.getLast? ≠ some '.') : trimDots s = s := by
  rw [trimDots, rdropWhile_eq_self_iff]
  intro hl hdot
  apply h
  rw [getLast?_eq_some_getLast hl]
  simpa using hdot

theorem getLast?_trimDots (s : Str) : (trimDots s).getLast? ≠ some '.' := by
  intro h
  have hne : trimDots s ≠ [] := by
    rintro hnil
    rw [hnil] at h
    simp at h
  have hlast := rdropWhile_last_not (· == '.') s hne
  rw [getLast?_eq_some_getLast hne, some_inj] at h
  exact hlast (by simpa [trimDots] using h)

@[simp] theorem trimDots_idem (s : Str) : trimDots (trimDots s) = trimDots s :=
  trimDots_eq_self (getLast?_trimDots s)

theorem trimDots_isPrefix (s : Str) : trimDots s <+: s := List.rdropWhile_prefix _ s

theorem trimDots_lowerAscii (s : Str) : trimDots (lowerAscii s) = lowerAscii (trimDots s) := by
  induction s using List.reverseRecOn with
  | nil => rfl
  | append_singleton s c ih =>
    -- only a dot is lowered to a dot
    by_cases hc : c = '.'
    · subst hc
      rw [lowerAscii_append, show lowerAscii ['.'] = ['.'] from rfl, trimDots_concat_dot,
        trimDots_concat_dot, ih]
    · have hc' : c.toLower ≠ '.' := fun h => hc ((toLower_eq_dot c).mp h)
      rw [trimDots_eq_self (by simpa [lowerAscii] using hc'), trimDots_eq_self (by simpa using hc)]

/-- `q` is `x` under some upper/lower-case spelling, with any number of
trailing dots. -/
def Spelling (x q : Str) : Prop :=
  ∃ y k, lowerAscii y = lowerAscii x ∧ q = y ++ List.replicate k '.'

theorem Spelling.trim_lower {x q : Str} (h : Spelling x q) :
    lowerAscii (trimDots q) = lowerAscii (trimDots x) := by
  obtain ⟨y, k, hy, rfl⟩ := h
  rw [trimDots_append_replicate, ← trimDots_lowerAscii, hy, trimDots_lowerAscii]

/-! ### Python's white space and lines -/

/-- `str.isspace` for one character, which is also the class `\\s` of `re`. -/
def isSpace (c : Char) : Bool :=
  let n := c.toNat
  (9 ≤ n && n ≤ 13) || (28 ≤ n && n ≤ 32) || n == 0x85 || n == 0xA0 || n == 0x1680 ||
    (0x2000 ≤ n && n ≤ 0x200A) || n == 0x2028 || n == 0x2029 || n == 0x202F || n == 0x205F ||
    n == 0x3000

/-- The characters `str.splitlines` breaks at. -/
def isLineBreak (c : Char) : Bool :=
  let n := c.toNat
  (10 ≤ n && n ≤ 13) || (28 ≤ n && n ≤ 30) || n == 0x85 || n == 0x2028 || n == 0x2029

theorem isSpace_of_isLineBreak (h : isLineBreak c = true) : isSpace c = true := by
  simp only [isLineBreak, isSpace, Bool.or_eq_true, Bool.and_eq_true, decide_eq_true_eq,
    beq_iff_eq] at h ⊢
  omega

/-- `str.strip()`. -/
def strip (s : Str) : Str := (s.dropWhile isSpace).rdropWhile isSpace

theorem mem_of_mem_strip (h : c ∈ strip s) : c ∈ s :=
  (dropWhile_suffix isSpace).subset ((List.rdropWhile_prefix isSpace _).subset h)

theorem strip_idem (s : Str) : strip (strip s) = strip s := by
  have hhead : (strip s).dropWhile isSpace = strip s := by
    rw [dropWhile_eq_self_iff]
    intro hpos
    -- the first character that survives both trims is the first non-blank one
    have hpre : strip s <+: s.dropWhile isSpace := List.rdropWhile_prefix _ _
    have hne : s.dropWhile isSpace ≠ [] := by
      intro h
      rw [h, prefix_nil] at hpre
      rw [hpre] at hpos
      simp at hpos
    rw [hpre.getElem hpos]
    simpa [head_eq_getElem] using head_dropWhile_not isSpace hne
  calc strip (strip s) = ((strip s).dropWhile isSpace).rdropWhile isSpace := rfl
    _ = (strip s).rdropWhile isSpace := by rw [hhead]
    _ = strip s := rdropWhile_idempotent _ _

theorem strip_eq_self (h : ∀ c ∈ s, isSpace c = false) : strip s = s := by
  have hdrop : s.dropWhile isSpace = s := by
    cases s with
    | nil => rfl
    | cons c => exact dropWhile_cons_of_neg (by simp [h c mem_cons_self])
  rw [strip, hdrop, rdropWhile_eq_self_iff]
  intro hl hsp
  rw [h _ (getLast_mem hl)] at hsp
  simp at hsp

/-- `str.splitlines`, with the characters of the current line in reverse. -/
def splitlinesAux (line : Str) : Str → List Str
  | [] => if line = [] then [] else [line.reverse]
  | '\r' :: '\n' :: rest => line.reverse :: splitlinesAux [] rest
  | c :: rest =>
    if isLineBreak c then line.reverse :: splitlinesAux [] rest
    else splitlinesAux (c :: line) rest

/-- `str.splitlines()`. -/
def splitlines (s : Str) : List Str := splitlinesAux [] s

/-- `sep.join(parts)`. -/
def join (sep : Str) (parts : List Str) : Str := sep.intercalate parts

theorem splitlinesAux_cons (hc : isLineBreak c = false) :
    splitlinesAux line (c :: rest) = splitlinesAux (c :: line) rest := by
  have hr : c ≠ '\r' := by
    rintro rfl
    exact absurd hc (by decide)
  rw [splitlinesAux]
  · rw [if_neg (by simp [hc])]
  · rintro rest' rfl
    exact absurd rfl hr

theorem splitlinesAux_append {d : Str} (hd : ∀ c ∈ d, isLineBreak c = false) :
    splitlinesAux line (d ++ rest) = splitlinesAux (d.reverse ++ line) rest := by
  induction d generalizing line with
  | nil => rfl
  | cons c d ih =>
    rw [cons_append, splitlinesAux_cons (hd c mem_cons_self),
      ih fun x hx => hd x (mem_cons_of_mem c hx)]
    simp

theorem splitlinesAux_newline (line rest : Str) :
    splitlinesAux line ('\n' :: rest) = line.reverse :: splitlinesAux [] rest := by
  rw [splitlinesAux]
  · rw [if_pos (by decide)]
  · rintro rest' h
    simp at h

/-- Non-empty lines without line breaks come back from a newline-joined text. -/
theorem splitlines_join {ds : List Str}
    (h : ∀ d ∈ ds, d ≠ [] ∧ ∀ c ∈ d, isLineBreak c = false) :
    splitlines (join "\n" ds) = ds := by
  induction ds with
  | nil => rfl
  | cons d ds ih =>
    obtain ⟨hne, hbrk⟩ := h d mem_cons_self
    have ih' := ih fun x hx => h x (mem_cons_of_mem d hx)
    rcases ds with _ | ⟨e, ds⟩
    · have hjoin : join "\n" [d] = d ++ [] := by simp [join, List.intercalate]
      rw [splitlines, hjoin, splitlinesAux_append hbrk, splitlinesAux, if_neg (by simpa using hne)]
      simp
    · have hjoin : join "\n" (d :: e :: ds) = d ++ '\n' :: join "\n" (e :: ds) := by
        rw [join, intercalate_cons_cons, append_assoc]
        rfl
      rw [splitlines, hjoin, splitlinesAux_append hbrk, splitlinesAux_newline]
      rw [show splitlinesAux [] (join "\n" (e :: ds)) = e :: ds from ih']
      simp

theorem isLineBreak_of_mem_splitlines {l : Str} (hl : l ∈ splitlines s) :
    ∀ c ∈ l, isLineBreak c = false := by
  suffices H : ∀ line, (∀ c ∈ line, isLineBreak c = false) →
      ∀ l ∈ splitlinesAux line s, ∀ c ∈ l, isLineBreak c = false from
    H [] (by simp) l hl
  clear hl l
  intro line hline
  fun_induction splitlinesAux line s with
  | case1 => simp
  | case2 =>
    intro l hl c hc
    rw [mem_singleton.mp hl] at hc
    exact hline c (mem_reverse.mp hc)
  | case3 line rest ih =>
    intro l hl c hc
    rcases mem_cons.mp hl with rfl | hl
    · exact hline c (mem_reverse.mp hc)
    · exact ih (by simp) l hl c hc
  | case4 line c rest hne hbrk ih =>
    intro l hl c hc
    rcases mem_cons.mp hl with rfl | hl
    · exact hline c (mem_reverse.mp hc)
    · exact ih (by simp) l hl c hc
  | case5 line c rest hne hbrk ih =>
    refine ih fun x hx => ?_
    rcases mem_cons.mp hx with rfl | hx
    · simpa using hbrk
    · exact hline x hx

/-! ### Joined parts -/

theorem join_append (sep : Str) {a b : List Str} (ha : a ≠ []) (hb : b ≠ []) :
    join sep (a ++ b) = join sep a ++ sep ++ join sep b := by
  induction a with
  | nil => exact absurd rfl ha
  | cons x a ih =>
    obtain ⟨y, b, rfl⟩ := exists_cons_of_ne_nil hb
    cases a with
    | nil => simp [join, intercalate_cons_cons]
    | cons =>
      have hstep := ih (by simp)
      simp only [join, cons_append, intercalate_cons_cons] at hstep ⊢
      rw [hstep]
      simp only [append_assoc]

theorem mem_join {sep : Str} {parts : List Str} (h : c ∈ join sep parts) :
    c ∈ sep ∨ ∃ p ∈ parts, c ∈ p := by
  induction parts with
  | nil => simp [join] at h
  | cons x parts ih =>
    by_cases hpar : parts = []
    · subst hpar
      exact .inr ⟨x, by simp, by simpa [join] using h⟩
    · rw [join, intercalate_cons_of_ne_nil hpar] at h
      rcases mem_append.mp h with h | h
      · rcases mem_append.mp h with h | h
        · exact .inr ⟨x, by simp, h⟩
        · exact .inl h
      · obtain hsep | ⟨p, hp, hc⟩ := ih h
        · exact .inl hsep
        · exact .inr ⟨p, mem_cons_of_mem _ hp, hc⟩

theorem join_concat_append (sep : Str) (init : List Str) (last t : Str) :
    join sep (init ++ [last ++ t]) = join sep (init ++ [last]) ++ t := by
  cases init with
  | nil => simp [join]
  | cons =>
    rw [join_append sep (by simp) (by simp), join_append sep (by simp) (by simp)]
    simp [join]

theorem lowerAscii_join (sep : Str) (parts : List Str) :
    lowerAscii (join sep parts) = join (lowerAscii sep) (parts.map lowerAscii) := by
  induction parts with
  | nil => rfl
  | cons x parts ih =>
    cases parts with
    | nil => simp [join]
    | cons =>
      simp only [join, map_cons, intercalate_cons_cons] at ih ⊢
      rw [lowerAscii_append, lowerAscii_append, ih]

theorem join_splitOn (s : Str) : join "." (s.splitOn '.') = s :=
  intercalate_splitOn '.'

/-! ### Splitting a text -/

section Parts

variable {p q : Char → Bool}

/-- The parts come from the text, and what does not separate them is in one. -/
theorem mem_splitOnP :
    (∀ l ∈ s.splitOnP p, ∀ c ∈ l, c ∈ s ∧ p c = false) ∧
      ∀ c ∈ s, p c = false → ∃ l ∈ s.splitOnP p, c ∈ l := by
  induction s with
  | nil => simp
  | cons x s ih =>
    obtain ⟨ihsub, ihmem⟩ := ih
    rw [splitOnP_cons_eq_if_modifyHead]
    -- a separator starts a new part, any other character joins the first one
    split_ifs with hx
    · refine ⟨fun l hl c hc => ?_, fun c hc hpc => ?_⟩
      · rcases mem_cons.mp hl with rfl | hl
        · simp at hc
        · exact (ihsub l hl c hc).imp_left (mem_cons_of_mem _)
      · rcases mem_cons.mp hc with rfl | hc
        · simp [hpc] at hx
        · obtain ⟨l, hl, hcl⟩ := ihmem c hc hpc
          exact ⟨l, mem_cons_of_mem _ hl, hcl⟩
    · cases hspl : s.splitOnP p with
      | nil => exact absurd hspl (splitOnP_ne_nil _ _)
      | cons head =>
        rw [hspl] at ihsub ihmem
        rw [modifyHead_cons]
        refine ⟨fun l hl c hc => ?_, fun c hc hpc => ?_⟩
        · rcases mem_cons.mp hl with rfl | hl
          · rcases mem_cons.mp hc with rfl | hc
            · exact ⟨mem_cons_self, by simpa using hx⟩
            · exact (ihsub head mem_cons_self c hc).imp_left (mem_cons_of_mem _)
          · exact (ihsub l (mem_cons_of_mem _ hl) c hc).imp_left (mem_cons_of_mem _)
        · rcases mem_cons.mp hc with rfl | hc
          · exact ⟨_, mem_cons_self, mem_cons_self⟩
          · obtain ⟨l, hl, hcl⟩ := ihmem c hc hpc
            rcases mem_cons.mp hl with rfl | hl
            · exact ⟨_, mem_cons_self, mem_cons_of_mem _ hcl⟩
            · exact ⟨l, mem_cons_of_mem _ hl, hcl⟩

theorem splitOnP_congr (h : ∀ c ∈ s, p c = q c) :
    s.splitOnP p = s.splitOnP q := by
  induction s with
  | nil => rfl
  | cons x s ih =>
    rw [splitOnP_cons_eq_if_modifyHead, splitOnP_cons_eq_if_modifyHead,
      h x mem_cons_self, ih fun c hc => h c (mem_cons_of_mem _ hc)]

theorem takeWhile_congr (h : ∀ c ∈ s, p c = q c) :
    s.takeWhile p = s.takeWhile q ∧ s.dropWhile p = s.dropWhile q := by
  induction s with
  | nil => exact ⟨rfl, rfl⟩
  | cons x s ih =>
    obtain ⟨htake, hdrop⟩ := ih fun c hc => h c (mem_cons_of_mem _ hc)
    rw [takeWhile_cons, takeWhile_cons, dropWhile_cons, dropWhile_cons,
      h x mem_cons_self, htake, hdrop]
    exact ⟨rfl, rfl⟩

end Parts

/-! ### Python's `str.lower` -/

/-- `str.lower`.  Its table of non-ASCII characters belongs to Unicode; the
development uses that ASCII text is lowered character by character and that
lowering never creates white space. -/
structure CaseMap where
  lower : Str → Str
  lower_ascii : ∀ {s : Str}, IsAscii s → lower s = lowerAscii s
  lower_space : ∀ {s : Str} {c : Char}, c ∈ lower s → isSpace c = true → c ∈ s

/-- `str.lower` leaves no ASCII capital. -/
def CaseMap.Lowers (U : CaseMap) : Prop := ∀ s, lowerAscii (U.lower s) = U.lower s

theorem toNat_toLower_of_isSpace (h : isSpace c.toLower = true) : c.toLower = c := by
  apply char_ext_toNat
  simp only [isSpace, Bool.or_eq_true, Bool.and_eq_true, decide_eq_true_eq, beq_iff_eq] at h
  rw [toNat_toLower] at h ⊢
  split <;> split at h <;> omega

/-- Lowering ASCII letters only: what `str.lower` does to ASCII text. -/
def CaseMap.ascii : CaseMap where
  lower := lowerAscii
  lower_ascii _ := rfl
  lower_space h hs := by
    obtain ⟨d, hd, rfl⟩ := List.mem_map.mp h
    rwa [toNat_toLower_of_isSpace hs]

theorem CaseMap.ascii_lowers : CaseMap.ascii.Lowers := lowerAscii_idem

/-! ### UTF-8 -/

/-- `str.encode("utf-8")`, and Rust's `as_bytes`. -/
def utf8 (s : Str) : List UInt8 := s.flatMap String.utf8EncodeChar

/-- The number of bytes after a lead byte of a well-formed sequence, and the
range its first continuation byte must lie in. -/
def utf8Lead (b : ℕ) : Option (ℕ × ℕ × ℕ) :=
  if 0xC2 ≤ b ∧ b ≤ 0xDF then some (1, 0x80, 0xBF)
  else if b = 0xE0 then some (2, 0xA0, 0xBF)
  else if b = 0xED then some (2, 0x80, 0x9F)
  else if 0xE1 ≤ b ∧ b ≤ 0xEF then some (2, 0x80, 0xBF)
  else if b = 0xF0 then some (3, 0x90, 0xBF)
  else if 0xF1 ≤ b ∧ b ≤ 0xF3 then some (3, 0x80, 0xBF)
  else if b = 0xF4 then some (3, 0x80, 0x8F)
  else none

/-- Reads up to `n` continuation bytes, the first of them in `lo..hi`, into
`acc`: how many were read, and the code point if none was missing. -/
def utf8Continue (acc : ℕ) : ℕ → ℕ → ℕ → List UInt8 → ℕ × Option ℕ
  | 0, _, _, _ => (0, some acc)
  | _ + 1, _, _, [] => (0, none)
  | n + 1, lo, hi, b :: rest =>
    if lo ≤ b.toNat ∧ b.toNat ≤ hi then
      let r := utf8Continue (acc * 64 + b.toNat % 64) n 0x80 0xBF rest
      (r.1 + 1, r.2)
    else (0, none)

/-- `bytes.decode("utf-8", errors="replace")`: each maximal ill-formed prefix
of a sequence becomes one U+FFFD. -/
def decodeUtf8Replace : List UInt8 → Str
  | [] => []
  | b :: rest =>
    if b.toNat < 0x80 then Char.ofNat b.toNat :: decodeUtf8Replace rest
    else
      match utf8Lead b.toNat with
      | none => Char.ofNat 0xFFFD :: decodeUtf8Replace rest
      | some (n, lo, hi) =>
        let r := utf8Continue (b.toNat % 2 ^ (6 - n)) n lo hi rest
        Char.ofNat (r.2.getD 0xFFFD) :: decodeUtf8Replace (rest.drop r.1)
  termination_by l => l.length
  decreasing_by all_goals simp only [length_cons, length_drop]; omega

example : decodeUtf8Replace [0x61, 0xC3, 0xA9, 0xE2, 0x82, 0x62, 0xFF] =
    ['a', 'é', Char.ofNat 0xFFFD, 'b', Char.ofNat 0xFFFD] := by decide +kernel

/-- The decimal text of an integer. -/
def natText (n : ℕ) : Str := Nat.toDigits 10 n

/-- Decimal digits of an integer, with its sign. -/
def intText (n : ℤ) : Str := if n < 0 then '-' :: natText n.natAbs else natText n.natAbs

/-! ### Reading a list -/

theorem forall₂_of_mapM (h : l.mapM f = some l') : List.Forall₂ (fun a b => f a = some b) l l' := by
  induction l generalizing l' with
  | nil =>
    rw [mapM_nil] at h
    cases h
    exact .nil
  | cons a l ih =>
    simp only [mapM_cons, bind_eq_bind, bind_eq_some_iff, Option.pure_def, some_inj] at h
    obtain ⟨b, hb, bs, hbs, rfl⟩ := h
    exact .cons hb (ih hbs)

theorem mem_of_mapM (h : l.mapM f = some l') (ha : a ∈ l) (hb : f a = some b) : b ∈ l' := by
  have hrel := forall₂_of_mapM h
  clear h
  induction hrel with
  | nil => simp at ha
  | cons hx _ ih =>
    rcases mem_cons.mp ha with rfl | ha
    · exact mem_cons.mpr (.inl (some_inj.mp (hb.symm.trans hx)))
    · exact mem_cons_of_mem _ (ih ha)

theorem exists_of_mem_mapM (h : l.mapM f = some l') (hb : b ∈ l') : ∃ a ∈ l, f a = some b := by
  have hrel := forall₂_of_mapM h
  clear h
  induction hrel with
  | nil => simp at hb
  | @cons a _ l _ hab _ ih =>
    rcases mem_cons.mp hb with rfl | hb
    · exact ⟨a, mem_cons_self, hab⟩
    · obtain ⟨a', ha', hab'⟩ := ih hb
      exact ⟨a', mem_cons_of_mem _ ha', hab'⟩

theorem isSome_of_mapM (h : l.mapM f = some l') (ha : a ∈ l) : (f a).isSome := by
  have hrel := forall₂_of_mapM h
  clear h
  induction hrel with
  | nil => simp at ha
  | cons hx _ ih =>
    rcases mem_cons.mp ha with rfl | ha
    · simp [hx]
    · exact ih ha

theorem mapM_of_forall_isSome (h : ∀ x ∈ l, (f x).isSome) : l.mapM f = some (l.filterMap f) := by
  induction l with
  | nil => rfl
  | cons x l ih =>
    obtain ⟨hx, hl⟩ := forall_mem_cons.mp h
    obtain ⟨y, hy⟩ := isSome_iff_exists.mp hx
    rw [mapM_cons, filterMap_cons, hy, ih hl]
    rfl

theorem mapM_congr {g : α → Option β} (h : ∀ x ∈ l, f x = g x) :
    l.mapM f = l.mapM g := by
  induction l with
  | nil => rfl
  | cons x l ih =>
    obtain ⟨hx, hl⟩ := forall_mem_cons.mp h
    rw [mapM_cons, mapM_cons, hx, ih hl]

end Text
