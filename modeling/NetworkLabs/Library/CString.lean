import Mathlib

/-!
# Strings of C

A string is a place in a buffer of characters and ends before the next NUL. A pointer is
the index of that place, and `none` is the null pointer. `strsep` overwrites the delimiter
that it finds, so that what was one string is two. `fgets` reads a line, or as much of it
as fits; a longer line is read in several pieces, and no character is lost.
-/

namespace CString

def NUL : Char := Char.ofNat 0

/-- The string at `p`. -/
def cstr (buf : List Char) (p : ℕ) : List Char := (buf.drop p).takeWhile (· ≠ NUL)

/-- The white space of the C locale. -/
def isspace (c : Char) : Bool := c = ' ' || (9 ≤ c.toNat && c.toNat ≤ 13)

/-- The buffer afterwards, the place behind the delimiter and the token. -/
def strsep (buf : List Char) (p : Option ℕ) (delim : Char) :
    List Char × Option ℕ × Option ℕ :=
  match p with
  | none => (buf, none, none)
  | some p =>
      let token := (cstr buf p).takeWhile (· ≠ delim)
      if token.length < (cstr buf p).length then
        (buf.set (p + token.length) NUL, some (p + token.length + 1), some p)
      else (buf, none, some p)

/-- The string at `p` without the white space around it, in place: the buffer with a NUL
behind the last character that is kept, and the place of the first. -/
def strim (buf : List Char) (p : ℕ) : List Char × ℕ :=
  let stop := ((cstr buf p).reverse.dropWhile isspace).length
  let buf := buf.set (p + stop) NUL
  (buf, p + ((cstr buf p).takeWhile isspace).length)

/-- The number that a string begins with, saturated at the bounds of `long`. -/
def strtol (s : List Char) : ℤ :=
  let digits := fun s : List Char => (Nat.ofDigitChars 10 (s.takeWhile Char.isDigit) 0 : ℤ)
  let value := match s.dropWhile isspace with
    | '-' :: s => -digits s
    | '+' :: s => digits s
    | s => digits s
  max (-2 ^ 63) (min value (2 ^ 63 - 1))

def atoi (s : List Char) : ℤ := (strtol s).bmod (2 ^ 32)

/-- The characters that are read of a file, at most `n` and none behind a newline, and the
rest. -/
def fgets : ℕ → List Char → List Char × List Char
  | 0, file => ([], file)
  | _ + 1, [] => ([], [])
  | n + 1, c :: file =>
      if c = '\n' then ([c], file) else (c :: (fgets n file).1, (fgets n file).2)

/-- The rounds of a loop over `fgets`, which ends with the file. -/
def fgetsLoop (n : ℕ) : ℕ → List Char → List (List Char)
  | 0, _ => []
  | fuel + 1, file =>
      if file = [] then [] else (fgets n file).1 :: fgetsLoop n fuel (fgets n file).2

/-- What the calls read until the end of the file. -/
def fgetsLines (n : ℕ) (file : List Char) : List (List Char) := fgetsLoop n file.length file

/-! ## The buffer -/

section

variable {front token rest s : List Char} {delim : Char}

theorem cstr_append_eq (front s : List Char) :
    cstr (front ++ s) front.length = s.takeWhile (· ≠ NUL) := by
  rw [cstr, List.drop_left]

theorem forall_ne (h : delim ∉ token) : ∀ c ∈ token, decide (c ≠ delim) = true :=
  fun _ hc => decide_eq_true (ne_of_mem_of_not_mem hc h)

theorem takeWhile_ne (h : delim ∉ token) :
    (token ++ delim :: rest).takeWhile (· ≠ delim) = token := by
  rw [List.takeWhile_append_of_pos (forall_ne h), List.takeWhile_cons_of_neg, List.append_nil]
  simp

/-- A string ends before the first NUL. -/
theorem cstr_append (front : List Char) (hs : NUL ∉ s) :
    cstr (front ++ s ++ NUL :: rest) front.length = s := by
  rw [List.append_assoc, cstr_append_eq, takeWhile_ne hs]

/-- The delimiter that ends a token is overwritten. -/
theorem strsep_cut (front : List Char) (hs : NUL ∉ token) (hdelim : delim ∉ token)
    (hne : delim ≠ NUL) :
    strsep (front ++ token ++ delim :: rest) (some front.length) delim =
      (front ++ token ++ NUL :: rest, some (front.length + token.length + 1),
        some front.length) := by
  have hstring : cstr (front ++ token ++ delim :: rest) front.length =
      token ++ delim :: rest.takeWhile (· ≠ NUL) := by
    rw [List.append_assoc, cstr_append_eq, List.takeWhile_append_of_pos (forall_ne hs),
      List.takeWhile_cons_of_pos (by simpa using hne)]
  have hset : (front ++ token ++ delim :: rest).set (front.length + token.length) NUL =
      front ++ token ++ NUL :: rest := by
    rw [← List.length_append, List.set_append_right _ _ le_rfl, Nat.sub_self,
      List.set_cons_zero]
  simp only [strsep]
  rw [hstring, takeWhile_ne hdelim, hset, if_pos]
  rw [List.length_append, List.length_cons]
  omega

/-- A string without the delimiter is the last token. -/
theorem strsep_last (front : List Char) (hs : NUL ∉ s) (hdelim : delim ∉ s) :
    strsep (front ++ s ++ NUL :: rest) (some front.length) delim =
      (front ++ s ++ NUL :: rest, none, some front.length) := by
  have hself : s.takeWhile (· ≠ delim) = s := by
    rw [List.takeWhile_eq_self_iff]
    exact forall_ne hdelim
  simp only [strsep]
  rw [cstr_append front hs, hself, if_neg (lt_irrefl _)]

end

/-! ## White space -/

/-- A string with no white space at its ends. -/
structure Stripped (s : List Char) : Prop where
  no_nul : NUL ∉ s
  ne_nil : s ≠ []
  head : ∀ c ∈ s.head?, isspace c = false
  last : ∀ c ∈ s.getLast?, isspace c = false

section

variable {front pad text pad' rest : List Char}

theorem nul_not_mem (hpad : ∀ c ∈ pad, isspace c = true) : NUL ∉ pad :=
  fun h => absurd (hpad _ h) (by decide)

/-- What stands between two texts without white space can be anything. -/
theorem Stripped.of_append {first mid last : List Char} (hfirst : first ≠ []) (hlast : last ≠ [])
    (hspace : ∀ c ∈ first ++ last, isspace c = false) (hnul : NUL ∉ first ++ mid ++ last) :
    Stripped (first ++ mid ++ last) where
  no_nul := hnul
  ne_nil := by simp [hfirst]
  head := by
    intro c hc
    rw [List.append_assoc, List.head?_append_of_ne_nil _ hfirst] at hc
    exact hspace c (List.mem_append_left _ (List.mem_of_mem_head? hc))
  last := by
    intro c hc
    rw [List.getLast?_append_of_ne_nil _ hlast] at hc
    exact hspace c (List.mem_append_right _ (List.mem_of_mem_getLast? hc))

/-- What is dropped in front of a stripped text is the white space. -/
theorem Stripped.takeWhile (h : Stripped text) (hpad : ∀ c ∈ pad, isspace c = true) :
    (pad ++ text).takeWhile isspace = pad := by
  obtain ⟨c, text', rfl⟩ := List.exists_cons_of_ne_nil h.ne_nil
  rw [List.takeWhile_append_of_pos hpad, List.takeWhile_cons_of_neg, List.append_nil]
  rw [h.head c rfl]
  exact Bool.false_ne_true

theorem Stripped.dropWhile_reverse (h : Stripped text) (hpad' : ∀ c ∈ pad', isspace c = true) :
    (pad ++ text ++ pad').reverse.dropWhile isspace = (pad ++ text).reverse := by
  obtain ⟨text', c, rfl⟩ := (List.eq_nil_or_concat text).resolve_left h.ne_nil
  rw [List.reverse_append, List.dropWhile_append_of_pos
    (fun c hc => hpad' c (List.mem_reverse.mp hc)), List.reverse_append,
    List.concat_eq_append, List.reverse_concat, List.cons_append, List.dropWhile_cons_of_neg]
  rw [h.last c (by simp)]
  exact Bool.false_ne_true

/-- The white space around a stripped text goes, and nothing before its end changes. -/
theorem strim_eq (front rest : List Char) (hpad : ∀ c ∈ pad, isspace c = true)
    (hpad' : ∀ c ∈ pad', isspace c = true) (htext : Stripped text) :
    ∃ rest', strim (front ++ (pad ++ text ++ pad') ++ NUL :: rest) front.length =
      (front ++ (pad ++ text) ++ NUL :: rest', front.length + pad.length) := by
  have hnul : NUL ∉ pad ++ text := by
    rw [List.mem_append, not_or]
    exact ⟨nul_not_mem hpad, htext.no_nul⟩
  have hstring : cstr (front ++ (pad ++ text ++ pad') ++ NUL :: rest) front.length =
      pad ++ text ++ pad' := by
    refine cstr_append front ?_
    rw [List.mem_append, not_or]
    exact ⟨hnul, nul_not_mem hpad'⟩
  obtain ⟨d, rest', hd⟩ := List.exists_cons_of_ne_nil
    (show pad' ++ NUL :: rest ≠ [] by simp)
  have hset : (front ++ (pad ++ text ++ pad') ++ NUL :: rest).set
      (front.length + (pad ++ text).length) NUL = front ++ (pad ++ text) ++ NUL :: rest' := by
    rw [← List.append_assoc, List.append_assoc _ pad', hd, ← List.length_append,
      List.set_append_right _ _ le_rfl, Nat.sub_self, List.set_cons_zero]
  refine ⟨rest', ?_⟩
  simp only [strim]
  rw [hstring, htext.dropWhile_reverse hpad', List.length_reverse, hset, cstr_append front hnul,
    htext.takeWhile hpad]

end

/-! ## Numbers -/

theorem isspace_of_isDigit {c : Char} (hc : c.isDigit = true) : isspace c = false := by
  rw [Char.isDigit, Bool.and_eq_true, decide_eq_true_eq, decide_eq_true_eq] at hc
  have hlow : 48 ≤ c.toNat := hc.1
  rw [isspace, Bool.or_eq_false_iff, Bool.and_eq_false_iff]
  refine ⟨decide_eq_false ?_, Or.inr (decide_eq_false (by omega))⟩
  rintro rfl
  exact absurd hlow (by decide)

section

variable {pad rest : List Char} {n : ℕ}

theorem isDigit_of_mem {c : Char} (hc : c ∈ Nat.toDigits 10 n) : c.isDigit = true :=
  Nat.isDigit_of_mem_toDigits (by decide) (by decide) hc

theorem takeWhile_isDigit (hrest : ∀ c ∈ rest.head?, c.isDigit = false) :
    (Nat.toDigits 10 n ++ rest).takeWhile Char.isDigit = Nat.toDigits 10 n := by
  rw [List.takeWhile_append_of_pos fun c hc => isDigit_of_mem hc]
  cases rest with
  | nil => rw [List.takeWhile_nil, List.append_nil]
  | cons c rest => rw [List.takeWhile_cons_of_neg (by simp [hrest c rfl]), List.append_nil]

/-- A number that fits into `long`, behind white space and before something else. -/
theorem strtol_toDigits (hpad : ∀ c ∈ pad, isspace c = true)
    (hrest : ∀ c ∈ rest.head?, c.isDigit = false) (hn : n < 2 ^ 63) :
    strtol (pad ++ Nat.toDigits 10 n ++ rest) = n := by
  obtain ⟨d, ds, hds⟩ :=
    List.exists_cons_of_ne_nil (Nat.toDigits_ne_nil : Nat.toDigits 10 n ≠ [])
  have hd : d.isDigit = true := isDigit_of_mem (hds ▸ List.mem_cons_self)
  have hdrop : (pad ++ Nat.toDigits 10 n ++ rest).dropWhile isspace = d :: (ds ++ rest) := by
    rw [List.append_assoc, List.dropWhile_append_of_pos hpad, hds, List.cons_append,
      List.dropWhile_cons_of_neg]
    rw [isspace_of_isDigit hd]
    exact Bool.false_ne_true
  have hvalue : (Nat.ofDigitChars 10 (Nat.toDigits 10 n) 0 : ℤ) = n := by
    rw [Nat.ofDigitChars_toDigits (by decide) (by decide)]
  simp only [strtol]
  rw [hdrop]
  split
  -- a digit is not a sign
  · next hsign =>
      obtain ⟨rfl, -⟩ := List.cons.inj hsign
      exact absurd hd (by decide)
  · next hsign =>
      obtain ⟨rfl, -⟩ := List.cons.inj hsign
      exact absurd hd (by decide)
  · rw [← List.cons_append, ← hds, takeWhile_isDigit hrest, hvalue]
    omega

theorem atoi_toDigits (pad rest : List Char) (hpad : ∀ c ∈ pad, isspace c = true)
    (hrest : ∀ c ∈ rest.head?, c.isDigit = false) (hn : n < 2 ^ 31) :
    atoi (pad ++ Nat.toDigits 10 n ++ rest) = n := by
  rw [atoi, strtol_toDigits hpad hrest (hn.trans (by decide))]
  exact Int.bmod_eq_of_le (by omega) (by omega)

end

/-! ## Files -/

section

variable {n : ℕ} {l rest file : List Char}

/-- A line that fits is read with its newline. -/
theorem fgets_line (hl : '\n' ∉ l) (hn : l.length < n) :
    fgets n (l ++ '\n' :: rest) = (l ++ ['\n'], rest) := by
  induction l generalizing n with
  | nil =>
      obtain ⟨n, rfl⟩ := Nat.exists_eq_succ_of_ne_zero hn.ne'
      rfl
  | cons c l ih =>
      obtain ⟨n, rfl⟩ := Nat.exists_eq_succ_of_ne_zero (Nat.ne_zero_of_lt hn)
      rw [List.mem_cons, not_or] at hl
      rw [List.cons_append, fgets, if_neg (Ne.symm hl.1),
        ih hl.2 (Nat.lt_of_succ_lt_succ hn), List.cons_append]

/-- Of a longer line as much is read as fits. -/
theorem fgets_full (hl : '\n' ∉ l) (hn : l.length = n) (rest : List Char) :
    fgets n (l ++ rest) = (l, rest) := by
  subst hn
  induction l with
  | nil => cases rest <;> rfl
  | cons c l ih =>
      rw [List.mem_cons, not_or] at hl
      rw [List.length_cons, List.cons_append, fgets, if_neg (Ne.symm hl.1), ih hl.2]

/-- A file without a newline that fits is read as a whole. -/
theorem fgets_end (hl : '\n' ∉ l) (hn : l.length ≤ n) : fgets n l = (l, []) := by
  induction l generalizing n with
  | nil => cases n <;> rfl
  | cons c l ih =>
      obtain ⟨n, rfl⟩ := Nat.exists_eq_succ_of_ne_zero (Nat.ne_zero_of_lt hn)
      rw [List.mem_cons, not_or] at hl
      rw [fgets, if_neg (Ne.symm hl.1), ih hl.2 (Nat.le_of_succ_le_succ hn)]

/-- Nothing is lost between two calls. -/
theorem fgets_append (n : ℕ) (file : List Char) : (fgets n file).1 ++ (fgets n file).2 = file := by
  induction n, file using fgets.induct with
  | case1 file => rfl
  | case2 n => rfl
  | case3 n file => simp [fgets]
  | case4 n c file hc ih => rw [fgets, if_neg hc, List.cons_append, ih]

theorem length_fgets_lt (hn : 0 < n) (hfile : file ≠ []) :
    (fgets n file).2.length < file.length := by
  have hne : (fgets n file).1 ≠ [] := by
    obtain ⟨n, rfl⟩ := Nat.exists_eq_succ_of_ne_zero hn.ne'
    obtain ⟨c, file, rfl⟩ := List.exists_cons_of_ne_nil hfile
    rw [fgets]
    split <;> simp
  have hlength := congrArg List.length (fgets_append n file)
  rw [List.length_append] at hlength
  have := List.length_pos_iff.mpr hne
  omega

theorem fgetsLoop_of_le (hn : 0 < n) {fuel fuel' : ℕ} (h : file.length ≤ fuel)
    (h' : file.length ≤ fuel') : fgetsLoop n fuel file = fgetsLoop n fuel' file := by
  induction fuel generalizing fuel' file with
  | zero =>
      obtain rfl := List.length_eq_zero_iff.mp (Nat.le_zero.mp h)
      cases fuel' <;> rfl
  | succ fuel ih =>
      cases fuel' with
      | zero =>
          obtain rfl := List.length_eq_zero_iff.mp (Nat.le_zero.mp h')
          rfl
      | succ fuel' =>
          rw [fgetsLoop, fgetsLoop]
          by_cases hfile : file = []
          · rw [if_pos hfile, if_pos hfile]
          · have hlt := length_fgets_lt hn hfile
            rw [if_neg hfile, if_neg hfile]
            exact congrArg _ (ih (by omega) (by omega))

@[simp] theorem fgetsLines_nil (n : ℕ) : fgetsLines n [] = [] := rfl

theorem fgetsLines_cons (hn : 0 < n) (hfile : file ≠ []) :
    fgetsLines n file = (fgets n file).1 :: fgetsLines n (fgets n file).2 := by
  have hlt := length_fgets_lt hn hfile
  obtain ⟨k, hk⟩ := Nat.exists_eq_succ_of_ne_zero (Nat.ne_zero_of_lt hlt)
  rw [fgetsLines, hk, fgetsLoop, if_neg hfile]
  exact congrArg _ (fgetsLoop_of_le hn (by omega) le_rfl)

/-- All of the file is read. -/
theorem flatten_fgetsLines (hn : 0 < n) (file : List Char) :
    (fgetsLines n file).flatten = file := by
  induction hk : file.length using Nat.strong_induction_on generalizing file with
  | _ k ih =>
      by_cases hfile : file = []
      · rw [hfile, fgetsLines_nil, List.flatten_nil]
      · rw [fgetsLines_cons hn hfile, List.flatten_cons,
          ih _ (hk ▸ length_fgets_lt hn hfile) _ rfl, fgets_append]

theorem fgetsLines_line (hl : '\n' ∉ l) (hn : l.length < n) :
    fgetsLines n (l ++ '\n' :: rest) = (l ++ ['\n']) :: fgetsLines n rest := by
  rw [fgetsLines_cons (Nat.zero_lt_of_lt hn) (by simp), fgets_line hl hn]

theorem fgetsLines_end (hl : '\n' ∉ l) (hne : l ≠ []) (hn : l.length ≤ n) :
    fgetsLines n l = [l] := by
  rw [fgetsLines_cons ((List.length_pos_iff.mpr hne).trans_le hn) hne, fgets_end hl hn]
  rfl

/-- The pieces that a line of any length is read in make up the line. -/
theorem fgetsLines_pieces (hn : 0 < n) (hl : '\n' ∉ l) :
    ∃ pieces : List (List Char), pieces.flatten = l ++ ['\n'] ∧
      fgetsLines n (l ++ '\n' :: rest) = pieces ++ fgetsLines n rest := by
  induction hk : l.length using Nat.strong_induction_on generalizing l with
  | _ k ih =>
      rcases lt_or_ge l.length n with hfits | hlong
      · exact ⟨[l ++ ['\n']], List.flatten_singleton, fgetsLines_line hl hfits⟩
      · have hcut := List.take_append_drop n l
        have hpiece : (l.take n).length = n := List.length_take_of_le hlong
        have htail : '\n' ∉ l.drop n := fun h => hl (List.mem_of_mem_drop h)
        obtain ⟨pieces, hflatten, hread⟩ :=
          ih (l.drop n).length (by rw [List.length_drop]; omega) htail rfl
        refine ⟨l.take n :: pieces, ?_, ?_⟩
        · rw [List.flatten_cons, hflatten, ← List.append_assoc, hcut]
        · have hfull : fgets n (l ++ '\n' :: rest) =
              (l.take n, l.drop n ++ '\n' :: rest) := by
            have hread := fgets_full (fun h => hl (List.mem_of_mem_take h)) hpiece
              (l.drop n ++ '\n' :: rest)
            rwa [← List.append_assoc, hcut] at hread
          rw [fgetsLines_cons hn (by simp), hfull, hread, List.cons_append]

end

end CString
