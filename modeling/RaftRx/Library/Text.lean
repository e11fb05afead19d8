import Mathlib.Data.List.Basic
import Mathlib.Data.List.TakeDrop
import Mathlib.Data.List.TakeWhile
import Mathlib.Data.Int.Notation
import Mathlib.Tactic.NormNum

/-!
Text files read with the C library: decimal numbers, words, lines and fields.

A text is a list of characters (the bytes of a file, or of a string up to its terminating zero).

* `decimal`, `atoi`: printing an integer and reading one back;
* `scanWord`: the word a bounded `%s` conversion reads;
* `scanString`, `scanInt`: conversions of a `scanf` format, with the text they leave;
* `fgetsLines`: the pieces a loop around `fgets` sees;
* `splitFields`: the fields of a line between separators;
* `atoi_decimal`, `scanWord_word`, `fgetsLines_line`, `splitFields_cons`: each reader gets back
  what the printer wrote;
* `newline_fgetsLines`, `splitFields_free`: which characters pieces and fields cannot contain.
-/

namespace RaftRx.Text

/-- The characters `isspace` accepts. -/
def isSpace (c : Char) : Bool :=
  c == ' ' || c == '\t' || c == '\n' || c == '\x0b' || c == '\x0c' || c == '\r'

/-- A condition on the characters of a text is decided along the text, not over all of `Char`. -/
instance decidableBAll {p : Char → Prop} [DecidablePred p] (s : List Char) :
    Decidable (∀ c ∈ s, p c) :=
  s.decidableBAll p

/-- The output of `%d`. -/
def decimal (z : ℤ) : List Char :=
  if z < 0 then '-' :: Nat.toDigits 10 z.natAbs else Nat.toDigits 10 z.natAbs

/-- The value of the leading digits, `0` if there are none. -/
def leadingDigits (s : List Char) : ℕ := Nat.ofDigitChars 10 (s.takeWhile Char.isDigit) 0

/-- `atoi`: white space, an optional sign, digits. -/
def atoi (s : List Char) : ℤ :=
  match s.dropWhile isSpace with
  | '-' :: r => -(leadingDigits r : ℤ)
  | '+' :: r => leadingDigits r
  | r => leadingDigits r

/-- The word read by `sscanf(s, "%<n>s", ..)`, if there is one. -/
def scanWord (n : ℕ) (s : List Char) : Option (List Char) :=
  match ((s.dropWhile isSpace).takeWhile fun c => !isSpace c).take n with
  | [] => none
  | w => some w

/-- `%<n>s` in a `scanf` format: the word and the text behind it. -/
def scanString (n : ℕ) (s : List Char) : Option (List Char × List Char) :=
  (scanWord n s).map fun w => (w, (s.dropWhile isSpace).drop w.length)

/-- The text behind an optional sign. -/
def skipSign : List Char → List Char
  | '-' :: r => r
  | '+' :: r => r
  | r => r

/-- `%d` in a `scanf` format: the number and the text behind it, if there is a digit. -/
def scanInt (s : List Char) : Option (ℤ × List Char) :=
  let digits := skipSign (s.dropWhile isSpace)
  if digits.takeWhile Char.isDigit = [] then none
  else some (atoi s, digits.dropWhile Char.isDigit)

/-- The loop around `fgets`: `room` characters are left in the buffer, `acc` is what it holds. -/
def fgetsLoop (cap : ℕ) : ℕ → List Char → List Char → List (List Char)
  | _, acc, [] => if acc = [] then [] else [acc.reverse]
  | room, acc, c :: cs =>
      if c = '\n' ∨ room ≤ 1 then (c :: acc).reverse :: fgetsLoop cap cap [] cs
      else fgetsLoop cap (room - 1) (c :: acc) cs

/-- The strings successive calls of `fgets` with a buffer of `size` bytes return. -/
def fgetsLines (size : ℕ) (text : List Char) : List (List Char) :=
  fgetsLoop (size - 1) (size - 1) [] text

/-- The first `n` fields of a line: all but the last end at `sep`, the last at the newline. -/
def splitFields (sep : Char) : ℕ → List Char → Option (List (List Char))
  | 0, _ => none
  | 1, s => some [s.takeWhile (· ≠ '\n')]
  | n + 2, s =>
      match s.dropWhile (· ≠ sep) with
      | [] => none
      | _ :: rest => (splitFields sep (n + 1) rest).map (s.takeWhile (· ≠ sep) :: ·)

/-! ### Numbers -/

lemma isDigit_of_mem_toDigits {n : ℕ} {c : Char} (h : c ∈ Nat.toDigits 10 n) : c.isDigit = true :=
  Nat.isDigit_of_mem_toDigits (by norm_num) (by norm_num) h

lemma ne_of_isDigit {c d : Char} (hc : c.isDigit = true) (hd : d.isDigit = false) : c ≠ d := by
  rintro rfl
  rw [hc] at hd
  exact Bool.noConfusion hd

lemma isSpace_of_isDigit {c : Char} (h : c.isDigit = true) : isSpace c = false := by
  have h1 : c ≠ ' ' := ne_of_isDigit h (by decide)
  have h2 : c ≠ '\t' := ne_of_isDigit h (by decide)
  have h3 : c ≠ '\n' := ne_of_isDigit h (by decide)
  have h4 : c ≠ '\x0b' := ne_of_isDigit h (by decide)
  have h5 : c ≠ '\x0c' := ne_of_isDigit h (by decide)
  have h6 : c ≠ '\r' := ne_of_isDigit h (by decide)
  simp [isSpace, h1, h2, h3, h4, h5, h6]

/-- Every character of a printed number is a digit or the sign. -/
lemma mem_decimal {z : ℤ} {c : Char} (h : c ∈ decimal z) : c = '-' ∨ c.isDigit = true := by
  rw [decimal] at h
  split at h
  · rcases List.mem_cons.mp h with rfl | h
    · exact Or.inl rfl
    · exact Or.inr (isDigit_of_mem_toDigits h)
  · exact Or.inr (isDigit_of_mem_toDigits h)

/-- A printed number has none of the characters that separate words, fields or lines. -/
lemma not_mem_decimal {z : ℤ} {c : Char} (hc : c.isDigit = false) (hm : c ≠ '-') :
    c ∉ decimal z := by
  intro h
  rcases mem_decimal h with h | h
  · exact hm h
  · rw [hc] at h
    exact Bool.noConfusion h

/-- The text after a number does not continue it. -/
def EndsNumber (rest : List Char) : Prop := ∀ c ∈ rest.head?, c.isDigit = false

lemma toDigits_append_takeWhile {n : ℕ} {rest : List Char} (h : EndsNumber rest) :
    (Nat.toDigits 10 n ++ rest).takeWhile Char.isDigit = Nat.toDigits 10 n := by
  rw [List.takeWhile_append_of_pos fun c hc => isDigit_of_mem_toDigits hc]
  cases rest with
  | nil => simp
  | cons c rest => simp [h c (by simp)]

lemma leadingDigits_toDigits (n : ℕ) {rest : List Char} (h : EndsNumber rest) :
    leadingDigits (Nat.toDigits 10 n ++ rest) = n := by
  rw [leadingDigits, toDigits_append_takeWhile h, Nat.ofDigitChars_ten_toDigits]

/-- **Reading a printed number back.** -/
theorem atoi_decimal (z : ℤ) {rest : List Char} (h : EndsNumber rest) :
    atoi (decimal z ++ rest) = z := by
  rw [decimal]
  split
  · rename_i hz
    have hdrop : (('-' :: Nat.toDigits 10 z.natAbs) ++ rest).dropWhile isSpace
        = '-' :: (Nat.toDigits 10 z.natAbs ++ rest) := by
      rw [List.cons_append, List.dropWhile_cons_of_neg (by decide)]
    rw [atoi, hdrop]
    simp only [leadingDigits_toDigits _ h]
    omega
  · rename_i hz
    cases hd : Nat.toDigits 10 z.natAbs with
    | nil => exact absurd hd Nat.toDigits_ne_nil
    | cons c cs =>
        have hc : c.isDigit = true := isDigit_of_mem_toDigits (n := z.natAbs) (by simp [hd])
        have hdrop : ((c :: cs) ++ rest).dropWhile isSpace = c :: (cs ++ rest) := by
          rw [List.cons_append, List.dropWhile_cons_of_neg (by simp [isSpace_of_isDigit hc])]
        have hm : c ≠ '-' := ne_of_isDigit hc (by decide)
        have hp : c ≠ '+' := ne_of_isDigit hc (by decide)
        have hval := leadingDigits_toDigits z.natAbs h
        rw [hd, List.cons_append] at hval
        rw [atoi, hdrop]
        split
        · rename_i heq
          exact absurd (List.cons.inj heq).1 hm
        · rename_i heq
          exact absurd (List.cons.inj heq).1 hp
        · rw [hval]
          omega

/-- A number that fits in 31 bits and a sign is at most eleven characters long. -/
lemma length_decimal_le {z : ℤ} (h : z.natAbs < 10 ^ 10) : (decimal z).length ≤ 11 := by
  have hlen : (Nat.toDigits 10 z.natAbs).length ≤ 10 :=
    (Nat.length_toDigits_le_iff (by norm_num) (by norm_num)).mpr h
  rw [decimal]
  split
  · rw [List.length_cons]
    omega
  · omega

/-! ### Words -/

lemma dropWhile_eq_self_of_head {p : Char → Bool} {s : List Char}
    (h : ∀ c ∈ s.head?, p c = false) : s.dropWhile p = s := by
  cases s with
  | nil => rfl
  | cons c s => rw [List.dropWhile_cons_of_neg (by simp [h c (by simp)])]

/-- **Reading a word back**: a nonempty word without white space of at most `n` characters. -/
theorem scanWord_word {n : ℕ} {w rest : List Char} (hne : w ≠ []) (hlen : w.length ≤ n)
    (hw : ∀ c ∈ w, isSpace c = false) (hrest : ∀ c ∈ rest.head?, isSpace c = true) :
    scanWord n (w ++ rest) = some w := by
  have hdrop : (w ++ rest).dropWhile isSpace = w ++ rest := by
    refine dropWhile_eq_self_of_head fun c hc => ?_
    cases w with
    | nil => exact absurd rfl hne
    | cons a w => exact hw c (by simp_all)
  have htake : (w ++ rest).takeWhile (fun c => !isSpace c) = w := by
    rw [List.takeWhile_append_of_pos fun c hc => by simp [hw c hc]]
    cases rest with
    | nil => simp
    | cons c rest => simp [hrest c (by simp)]
  rw [scanWord, hdrop, htake, List.take_of_length_le hlen]
  cases w with
  | nil => exact absurd rfl hne
  | cons a w => rfl

/-! ### Conversions one after the other -/

lemma scanString_skip {n : ℕ} {c : Char} {s : List Char} (hc : isSpace c = true) :
    scanString n (c :: s) = scanString n s := by
  rw [scanString, scanString, scanWord, scanWord, List.dropWhile_cons_of_pos hc]

lemma scanInt_skip {c : Char} {s : List Char} (hc : isSpace c = true) :
    scanInt (c :: s) = scanInt s := by
  rw [scanInt, scanInt, atoi, atoi, List.dropWhile_cons_of_pos hc]

/-- **A word is read and the reader stands behind it.** -/
theorem scanString_word {n : ℕ} {w rest : List Char} (hne : w ≠ []) (hlen : w.length ≤ n)
    (hw : ∀ c ∈ w, isSpace c = false) (hrest : ∀ c ∈ rest.head?, isSpace c = true) :
    scanString n (w ++ rest) = some (w, rest) := by
  have hdrop : (w ++ rest).dropWhile isSpace = w ++ rest := by
    refine dropWhile_eq_self_of_head fun c hc => ?_
    cases w with
    | nil => exact absurd rfl hne
    | cons a w => exact hw c (by simp_all)
  rw [scanString, scanWord_word hne hlen hw hrest, hdrop, Option.map_some, List.drop_left]

lemma toDigits_append_dropWhile {n : ℕ} {rest : List Char} (h : EndsNumber rest) :
    (Nat.toDigits 10 n ++ rest).dropWhile Char.isDigit = rest := by
  rw [List.dropWhile_append_of_pos fun c hc => isDigit_of_mem_toDigits hc]
  exact dropWhile_eq_self_of_head h

/-- What follows the sign of a printed number is its digits. -/
lemma skipSign_decimal (z : ℤ) (rest : List Char) :
    skipSign ((decimal z ++ rest).dropWhile isSpace) = Nat.toDigits 10 z.natAbs ++ rest := by
  rw [decimal]
  split
  · rw [List.cons_append, List.dropWhile_cons_of_neg (by decide), skipSign]
  · cases hd : Nat.toDigits 10 z.natAbs with
    | nil => exact absurd hd Nat.toDigits_ne_nil
    | cons c cs =>
        have hc : c.isDigit = true := isDigit_of_mem_toDigits (n := z.natAbs) (by simp [hd])
        have hm : c ≠ '-' := ne_of_isDigit hc (by decide)
        have hp : c ≠ '+' := ne_of_isDigit hc (by decide)
        rw [List.cons_append, List.dropWhile_cons_of_neg (by simp [isSpace_of_isDigit hc]),
          skipSign]
        · rintro r heq
          exact hm (List.cons.inj heq).1
        · rintro r heq
          exact hp (List.cons.inj heq).1

/-- **A number is read and the reader stands behind it.** -/
theorem scanInt_decimal (z : ℤ) {rest : List Char} (h : EndsNumber rest) :
    scanInt (decimal z ++ rest) = some (z, rest) := by
  rw [scanInt]
  rw [skipSign_decimal, toDigits_append_takeWhile h, toDigits_append_dropWhile h,
    if_neg Nat.toDigits_ne_nil, atoi_decimal z h]

/-- Reading a word uses up characters. -/
lemma length_scanString {n : ℕ} {s w rest : List Char} (h : scanString n s = some (w, rest)) :
    rest.length < s.length := by
  obtain ⟨v, hv, heq⟩ := Option.map_eq_some_iff.mp h
  obtain ⟨rfl, rfl⟩ := Prod.mk.inj heq
  have hdrop : (s.dropWhile isSpace).length ≤ s.length := (List.dropWhile_suffix _).length_le
  have hlen : (((s.dropWhile isSpace).takeWhile fun c => !isSpace c).take n).length
      ≤ (s.dropWhile isSpace).length := by
    rw [List.length_take]
    exact (Nat.min_le_right _ _).trans (List.takeWhile_prefix _).length_le
  rw [scanWord] at hv
  split at hv
  · exact absurd hv (by simp)
  · rename_i hne
    rw [Option.some.injEq] at hv
    rw [hv] at hlen hne
    have hpos : 0 < v.length := List.length_pos_iff.mpr hne
    rw [List.length_drop]
    omega

lemma length_skipSign (s : List Char) : (skipSign s).length ≤ s.length := by
  rw [skipSign.eq_def]
  split
  · exact Nat.le_succ _
  · exact Nat.le_succ _
  · exact le_rfl

/-- Reading a number gives no characters back. -/
lemma length_scanInt {s rest : List Char} {z : ℤ} (h : scanInt s = some (z, rest)) :
    rest.length ≤ s.length := by
  rw [scanInt] at h
  split at h
  · exact absurd h (by simp)
  · rw [Option.some.injEq] at h
    rw [← (Prod.mk.inj h).2]
    calc (List.dropWhile Char.isDigit (skipSign (s.dropWhile isSpace))).length
        ≤ (skipSign (s.dropWhile isSpace)).length := (List.dropWhile_suffix _).length_le
      _ ≤ (s.dropWhile isSpace).length := length_skipSign _
      _ ≤ s.length := (List.dropWhile_suffix _).length_le

/-! ### Lines -/

lemma fgetsLoop_line (cap : ℕ) (l rest : List Char) (hl : '\n' ∉ l) :
    ∀ (room : ℕ) (acc : List Char), l.length < room →
      fgetsLoop cap room acc (l ++ '\n' :: rest)
        = (acc.reverse ++ l ++ ['\n']) :: fgetsLoop cap cap [] rest := by
  induction l with
  | nil =>
      intro room acc _
      simp [fgetsLoop]
  | cons c l ih =>
      intro room acc hroom
      have hc : c ≠ '\n' := fun h => hl (by simp [h])
      rw [List.length_cons] at hroom
      rw [List.cons_append, fgetsLoop, if_neg (by simp only [not_or]; exact ⟨hc, by omega⟩),
        ih (fun h => hl (List.mem_cons_of_mem _ h)) (room - 1) (c :: acc) (by omega)]
      simp

/-- **A line that fits in the buffer is read whole.** -/
theorem fgetsLines_line {size : ℕ} {l : List Char} (rest : List Char) (hl : '\n' ∉ l)
    (hlen : l.length + 1 < size) :
    fgetsLines size (l ++ '\n' :: rest) = (l ++ ['\n']) :: fgetsLines size rest := by
  rw [fgetsLines, fgetsLoop_line _ _ _ hl _ _ (by omega)]
  rfl

@[simp] lemma fgetsLines_nil (size : ℕ) : fgetsLines size [] = [] := rfl

lemma fgetsLoop_append (cap : ℕ) (a rest : List Char) : ∀ (room : ℕ) (acc : List Char),
    fgetsLoop cap room acc (a ++ '\n' :: rest)
      = fgetsLoop cap room acc (a ++ ['\n']) ++ fgetsLoop cap cap [] rest := by
  induction a with
  | nil =>
      intro room acc
      simp [fgetsLoop]
  | cons c a ih =>
      intro room acc
      rw [List.cons_append, List.cons_append, fgetsLoop, fgetsLoop]
      split
      · rw [ih, List.cons_append]
      · exact ih _ _

/-- **After a newline reading starts afresh**, however the text before it is cut into pieces. -/
theorem fgetsLines_append (size : ℕ) (a rest : List Char) :
    fgetsLines size (a ++ '\n' :: rest)
      = fgetsLines size (a ++ ['\n']) ++ fgetsLines size rest :=
  fgetsLoop_append _ a rest _ _

/-- A newline can only be the last character of a piece. -/
lemma newline_fgetsLoop (cap : ℕ) (text : List Char) : ∀ (room : ℕ) (acc : List Char),
    '\n' ∉ acc → ∀ l ∈ fgetsLoop cap room acc text, '\n' ∉ l.dropLast := by
  induction text with
  | nil =>
      intro room acc hacc l hl
      rw [fgetsLoop] at hl
      split at hl
      · simp at hl
      · rw [List.mem_singleton.mp hl]
        exact fun h => hacc (List.mem_reverse.mp (List.dropLast_subset _ h))
  | cons c text ih =>
      intro room acc hacc l hl
      rw [fgetsLoop] at hl
      split at hl
      · rcases List.mem_cons.mp hl with rfl | hl
        · rw [List.reverse_cons, List.dropLast_concat]
          exact fun h => hacc (List.mem_reverse.mp h)
        · exact ih cap [] (by simp) l hl
      · rename_i hc
        rw [not_or] at hc
        refine ih _ (c :: acc) ?_ l hl
        rw [List.mem_cons, not_or]
        exact ⟨fun h => hc.1 h.symm, hacc⟩

theorem newline_fgetsLines {size : ℕ} {text l : List Char} (hl : l ∈ fgetsLines size text) :
    '\n' ∉ l.dropLast :=
  newline_fgetsLoop _ text _ [] (by simp) l hl

/-- A piece is no longer than the text. -/
lemma length_fgetsLoop (cap : ℕ) (text : List Char) : ∀ (room : ℕ) (acc : List Char),
    ∀ l ∈ fgetsLoop cap room acc text, l.length ≤ acc.length + text.length := by
  induction text with
  | nil =>
      intro room acc l hl
      rw [fgetsLoop] at hl
      split at hl
      · simp at hl
      · rw [List.mem_singleton.mp hl]
        simp
  | cons c text ih =>
      intro room acc l hl
      rw [fgetsLoop] at hl
      rw [List.length_cons]
      split at hl
      · rcases List.mem_cons.mp hl with rfl | hl
        · simp only [List.length_reverse, List.length_cons]
          omega
        · have := ih cap [] l hl
          rw [List.length_nil] at this
          omega
      · have := ih _ (c :: acc) l hl
        rw [List.length_cons] at this
        omega

lemma length_fgetsLines {size : ℕ} {text l : List Char} (hl : l ∈ fgetsLines size text) :
    l.length ≤ text.length := by
  have := length_fgetsLoop _ text _ [] l hl
  rw [List.length_nil, zero_add] at this
  exact this

/-! ### Fields -/

/-- **Splitting off the first field.** -/
theorem splitFields_cons {sep : Char} {n : ℕ} {f rest : List Char} (hf : sep ∉ f) :
    splitFields sep (n + 2) (f ++ sep :: rest) = (splitFields sep (n + 1) rest).map (f :: ·) := by
  have htake : (f ++ sep :: rest).takeWhile (· ≠ sep) = f := by
    rw [List.takeWhile_append_of_pos fun c hc => by
      simp only [decide_eq_true_eq]
      rintro rfl
      exact hf hc]
    simp
  have hdrop : (f ++ sep :: rest).dropWhile (· ≠ sep) = sep :: rest := by
    rw [List.dropWhile_append_of_pos fun c hc => by
      simp only [decide_eq_true_eq]
      rintro rfl
      exact hf hc]
    rw [List.dropWhile_cons_of_neg (by simp)]
  rw [splitFields, htake, hdrop]

/-- The last field ends at the newline. -/
lemma splitFields_last {sep : Char} {f rest : List Char} (hf : '\n' ∉ f) :
    splitFields sep 1 (f ++ '\n' :: rest) = some [f] := by
  have htake : (f ++ '\n' :: rest).takeWhile (· ≠ '\n') = f := by
    rw [List.takeWhile_append_of_pos fun c hc => by
      simp only [decide_eq_true_eq]
      rintro rfl
      exact hf hc]
    simp
  rw [splitFields, htake]

lemma dropLast_of_append_cons {f rest : List Char} {c sep : Char}
    (h : c ∉ (f ++ sep :: rest).dropLast) : c ∉ f ∧ c ∉ rest.dropLast := by
  rw [List.dropLast_append_of_ne_nil (by simp), List.mem_append, not_or] at h
  refine ⟨h.1, fun hc => h.2 ?_⟩
  cases rest with
  | nil => simp at hc
  | cons d rest => exact List.mem_cons_of_mem _ hc

/-- **The fields of one line** contain no newline, and all but the last no separator. -/
theorem splitFields_free {sep : Char} (n : ℕ) : ∀ {s : List Char} {fs : List (List Char)},
    '\n' ∉ s.dropLast → splitFields sep n s = some fs →
      (∀ f ∈ fs, '\n' ∉ f) ∧ ∀ f ∈ fs.dropLast, sep ∉ f := by
  induction n with
  | zero =>
      intro s fs _ h
      simp [splitFields] at h
  | succ n ih =>
      intro s fs hs h
      cases n with
      | zero =>
          rw [splitFields, Option.some.injEq] at h
          rw [← h]
          refine ⟨fun f hf => ?_, by simp⟩
          rw [List.mem_singleton.mp hf]
          intro hmem
          simpa using List.mem_takeWhile_imp hmem
      | succ n =>
          have hline : s.takeWhile (· ≠ sep) ++ s.dropWhile (· ≠ sep) = s :=
            List.takeWhile_append_dropWhile
          rw [splitFields] at h
          cases hd : s.dropWhile (· ≠ sep) with
          | nil => rw [hd] at h; simp at h
          | cons c rest =>
              rw [hd] at h hline
              obtain ⟨gs, hgs, rfl⟩ := Option.map_eq_some_iff.mp h
              rw [← hline] at hs
              obtain ⟨hfirst, hrest⟩ := dropLast_of_append_cons hs
              obtain ⟨h1, h2⟩ := ih hrest hgs
              refine ⟨fun f hf => ?_, fun f hf => ?_⟩
              · rcases List.mem_cons.mp hf with rfl | hf
                · exact hfirst
                · exact h1 f hf
              · cases gs with
                | nil => simp at hf
                | cons g gs =>
                    rw [List.dropLast_cons_cons] at hf
                    rcases List.mem_cons.mp hf with rfl | hf
                    · intro hmem
                      simpa using List.mem_takeWhile_imp hmem
                    · exact h2 f hf

end RaftRx.Text
