import KWayMerge.Proofs.Toml.Entries
import KWayMerge.Toml.Writing

/-!
# Documents of plain lines

A plain line holds one entry: a key without quotes, an equals sign, and a value that ends with the
line. Plain lines under distinct keys are read back, in the order in which they are written. So are
the texts of two kinds of values: a text between double quotes without anything to escape, and the
decimal digits of a number of 64 bits. Digits may be the beginning of a date or a time of day, and
are tried as these first; but no date or time ends with the line before its first mark.

**Results.**
* `spells_string`, `spells_natural`: quoted texts and decimal numbers are read back.
* `PlainLine.line?_chars`: so is a plain line, whatever follows.
* `parse_plainText`: so is a document of plain lines.
* `lawful_format`: the format keeps to its standard.
-/

namespace KWayMerge.Toml

/-! ## Steps of readers -/

section Steps

variable {α : Type}

@[simp] theorem char_cons_self (c : Char) (rest : List Char) :
    char c (c :: rest) = some ((), rest) := by
  simp [char]

theorem char_eq_none {c d : Char} (h : d ≠ c) (rest : List Char) : char c (d :: rest) = none := by
  simp [char, h]

theorem bind_peek?_cons (c : Char) (rest : List Char) (f : Option Char → Parser α) :
    (peek? >>= f) (c :: rest) = f (some c) (c :: rest) :=
  rfl

theorem blanks_of_head {s : List Char} (h : ∀ c ∈ s.head?, isBlank c = false) :
    blanks s = some ((), s) := by
  have htake : s.takeWhile isBlank = [] ∧ s.dropWhile isBlank = s := by
    cases s with
    | nil => exact ⟨rfl, rfl⟩
    | cons c rest => simp [h c rfl]
  have hblanks : blanks s = some ((), s.dropWhile isBlank) := rfl
  rw [hblanks, htake.2]

theorem blanks_space {s : List Char} (h : ∀ c ∈ s.head?, isBlank c = false) :
    blanks (' ' :: s) = some ((), s) := by
  have hblanks : blanks (' ' :: s) = blanks s := rfl
  rw [hblanks, blanks_of_head h]

theorem manyUntil_of_none {step : Parser (Option α)} {s rest : List Char}
    (h : step s = some (none, rest)) : manyUntil step s = some ([], rest) := by
  rw [manyUntil, h]

theorem manyUntil_of_some {step : Parser (Option α)} {s mid last : List Char} {a : α}
    {as : List α} (h : step s = some (some a, mid)) (hlt : mid.length < s.length)
    (hmid : manyUntil step mid = some (as, last)) :
    manyUntil step s = some (a :: as, last) := by
  rw [manyUntil, h]
  simp only [hlt, dite_true, hmid]

end Steps

/-! ## Values in front of a line end -/

/-- A text that is read as a value where the line ends behind it. -/
structure Spells (text : List Char) (v : Value) : Prop where
  head : ∀ c ∈ text.head?, isBlank c = false
  read : ∀ rest, value (text ++ '\n' :: rest) = some (v, '\n' :: rest)

theorem isPlain_iff {c : Char} :
    isPlain c = true ↔ isText c = true ∧ c ≠ '"' ∧ c ≠ '\\' := by
  simp [isPlain, and_assoc]

theorem basicString_quoted {cs : List Char} (h : ∀ c ∈ cs, isPlain c = true)
    (rest : List Char) : basicString ('"' :: (cs ++ '"' :: rest)) = some (cs, rest) := by
  rw [basicString, bind_of_eq_some (char_cons_self _ _)]
  induction cs with
  | nil => exact manyUntil_of_none rfl
  | cons c cs ih =>
      rw [List.forall_mem_cons, isPlain_iff] at h
      obtain ⟨⟨htext, hquote, hescape⟩, hcs⟩ := h
      have hread : satisfy isText (c :: (cs ++ '"' :: rest)) = some (c, cs ++ '"' :: rest) := by
        simp [satisfy, htext]
      rw [List.cons_append]
      refine manyUntil_of_some ?_ (Nat.lt_succ_self _) (ih hcs)
      rw [bind_of_eq_some hread]
      split
      · exact absurd rfl hquote
      · exact absurd rfl hescape
      · rfl

/-- Three quotes open a string over several lines; this is not one of them. -/
theorem basicLines_quoted {cs : List Char} (h : ∀ c ∈ cs, isPlain c = true) (rest : List Char) :
    basicLines ('"' :: (cs ++ '"' :: '\n' :: rest)) = none := by
  have hliteral : literal ['"', '"', '"'] ('"' :: (cs ++ '"' :: '\n' :: rest)) = none := by
    cases cs with
    | nil => rfl
    | cons c cs =>
        rw [List.forall_mem_cons, isPlain_iff] at h
        rw [literal, bind_of_eq_some (char_cons_self _ _), literal]
        exact bind_of_eq_none (char_eq_none h.1.2.1 _) _
  rw [basicLines, bind_of_eq_none hliteral]

/-- **A quoted text without anything to escape is read back.** -/
theorem spells_string {text : String} (h : ∀ c ∈ text.toList, isPlain c = true) :
    Spells ('"' :: (text.toList ++ ['"'])) (.string text) where
  head := by
    intro c hc
    cases hc
    rfl
  read rest := by
    have hcharacters : (basicLines <|> basicString <|> literalLines <|> literalString)
        ('"' :: (text.toList ++ '"' :: '\n' :: rest)) = some (text.toList, '\n' :: rest) := by
      rw [orElse_of_eq_none (basicLines_quoted h rest)]
      exact orElse_of_eq_some (basicString_quoted h _)
    have hstring : string ('"' :: (text.toList ++ '"' :: '\n' :: rest)) =
        some (text, '\n' :: rest) := by
      rw [string, bind_of_eq_some hcharacters, String.ofList_toList]
      rfl
    have hvalue : value ('"' :: (text.toList ++ '"' :: '\n' :: rest)) =
        (string >>= fun read => pure (.string read))
          ('"' :: (text.toList ++ '"' :: '\n' :: rest)) := rfl
    rw [List.cons_append, List.append_assoc, List.singleton_append, hvalue, bind_of_eq_some hstring]
    rfl

/-! ## Decimal numbers -/

theorem hexDigit?_digitChar {d : Nat} (h : d < 10) : hexDigit? d.digitChar = some d := by
  interval_cases d <;> rfl

/-- The decimal digits of a number spell it. -/
theorem numberOf_toDigits (n : Nat) : numberOf 10 (Nat.toDigits 10 n) = n := by
  induction n using Nat.strong_induction_on with
  | h n ih =>
      by_cases hn : n < 10
      · rw [Nat.toDigits_of_lt_base hn]
        simp [numberOf, hexDigit?_digitChar hn]
      · have hlast : n % 10 < 10 := Nat.mod_lt n (by decide)
        have hfront := ih (n / 10) (Nat.div_lt_self (by omega) (by decide))
        rw [numberOf] at hfront
        rw [Nat.toDigits_of_base_le (by decide) (not_lt.1 hn), numberOf, List.foldl_append, hfront]
        simp only [List.foldl_cons, List.foldl_nil, hexDigit?_digitChar hlast, Option.getD_some]
        omega

theorem isDigit_of_mem_toDigits {n : Nat} : ∀ c ∈ Nat.toDigits 10 n, c.isDigit = true :=
  fun _ hc => Nat.isDigit_of_mem_toDigits (by decide) (le_refl 10) hc

/-- Only zero is written with a zero in front. -/
theorem head_toDigits {n : Nat} (hn : 0 < n) : ∀ c ∈ (Nat.toDigits 10 n).head?, c ≠ '0' := by
  induction n using Nat.strong_induction_on with
  | h n ih =>
      by_cases hlt : n < 10
      · rw [Nat.toDigits_of_lt_base hlt]
        interval_cases n <;> simp
      · have hfront := ih (n / 10) (Nat.div_lt_self hn (by decide)) (by omega)
        rw [Nat.toDigits_of_base_le (by decide) (not_lt.1 hlt),
          List.head?_append_of_ne_nil _ Nat.toDigits_ne_nil]
        exact hfront

/-- Digits up to the end of a line. -/
def DigitLine (s : List Char) : Prop :=
  ∃ ds rest, (∀ c ∈ ds, c.isDigit = true) ∧ s = ds ++ '\n' :: rest

theorem DigitLine.char_eq_none {s : List Char} (hs : DigitLine s) {c : Char}
    (hdigit : c.isDigit = false) (hend : c ≠ '\n') : char c s = none := by
  obtain ⟨ds, rest, hds, rfl⟩ := hs
  cases ds with
  | nil => exact Toml.char_eq_none hend.symm rest
  | cons d ds =>
      refine Toml.char_eq_none ?_ _
      rintro rfl
      rw [hds d List.mem_cons_self] at hdigit
      cases hdigit

/-- Behind some digits of a line of digits there is a line of digits. -/
theorem digitLine_of_exactly {width : Nat} {s rest cs : List Char} (hs : DigitLine s)
    (h : exactly Char.isDigit width s = some (cs, rest)) : DigitLine rest := by
  induction width generalizing s cs with
  | zero =>
      cases h
      exact hs
  | succ width ih =>
      obtain ⟨c, mid, hc, h⟩ := bind_eq_some.1 h
      obtain ⟨cs', last, hcs, h⟩ := bind_eq_some.1 h
      cases h
      refine ih ?_ hcs
      obtain ⟨ds, rest, hds, rfl⟩ := hs
      cases ds with
      | nil => cases hc
      | cons d ds =>
          rw [List.forall_mem_cons] at hds
          rw [List.cons_append, satisfy, if_pos hds.1] at hc
          cases hc
          exact ⟨ds, rest, hds.2, rfl⟩

theorem digitLine_of_fixedNumber {width low high n : Nat} {s rest : List Char} (hs : DigitLine s)
    (h : fixedNumber width low high s = some (n, rest)) : DigitLine rest := by
  obtain ⟨cs, mid, hcs, h⟩ := bind_eq_some.1 h
  have hmid := digitLine_of_exactly hs hcs
  split at h
  · cases h
    exact hmid
  · cases h

/-- Where a mark has to follow a number of fixed width, a line of digits is refused. -/
theorem fixedNumber_char_eq_none {α : Type} {width low high : Nat} {s : List Char}
    (hs : DigitLine s) {c : Char} (hdigit : c.isDigit = false) (hend : c ≠ '\n')
    (f : Nat → Unit → Parser α) :
    (fixedNumber width low high >>= fun n => char c >>= f n) s = none := by
  cases hnumber : fixedNumber width low high s with
  | none => exact bind_of_eq_none hnumber _
  | some step =>
      obtain ⟨n, rest⟩ := step
      rw [bind_of_eq_some hnumber]
      exact bind_of_eq_none ((digitLine_of_fixedNumber hs hnumber).char_eq_none hdigit hend) _

/-- **A line of digits is no date and no time of day.** -/
theorem datetime_eq_none {s : List Char} (hs : DigitLine s) : datetime s = none := by
  have hdate : date s = none := fixedNumber_char_eq_none hs (c := '-') rfl (by decide) _
  have htime : time s = none := fixedNumber_char_eq_none hs (c := ':') rfl (by decide) _
  have hget : (get : Parser (List Char)) s = some (s, s) := rfl
  rw [datetime, bind_of_eq_some hget]
  refine bind_of_eq_none ?_ _
  rw [orElse_of_eq_none (bind_of_eq_none hdate _), htime]

theorem moreDigits_of_digits {ds : List Char} (h : ∀ c ∈ ds, c.isDigit = true)
    (rest : List Char) : moreDigits Char.isDigit (ds ++ '\n' :: rest) = (ds, '\n' :: rest) := by
  induction ds with
  | nil => rfl
  | cons d ds ih =>
      rw [List.forall_mem_cons] at h
      rw [List.cons_append]
      unfold moreDigits
      split
      · next heq =>
          obtain ⟨rfl, -⟩ := List.cons.inj heq
          exact absurd h.1 (by decide)
      · next heq =>
          obtain ⟨rfl, rfl⟩ := List.cons.inj heq
          rw [if_pos h.1, ih h.2]
      · next heq => cases heq

/-- Digits without a zero in front are read as the integer that they spell. -/
theorem decimalNumber_digits {d : Char} {ds : List Char} (hd : d.isDigit = true) (hzero : d ≠ '0')
    (hds : ∀ c ∈ ds, c.isDigit = true) (rest : List Char) :
    decimalNumber false (d :: (ds ++ '\n' :: rest)) =
      integerInRange (numberOf 10 (d :: ds)) ('\n' :: rest) := by
  have hsatisfy : satisfy Char.isDigit (d :: (ds ++ '\n' :: rest)) =
      some (d, ds ++ '\n' :: rest) := by
    rw [satisfy, if_pos hd]
  have hmore : (modifyGet (moreDigits Char.isDigit) : Parser (List Char)) (ds ++ '\n' :: rest) =
      some (ds, '\n' :: rest) := congrArg some (moreDigits_of_digits hds rest)
  have hdigits : decimalDigits (d :: (ds ++ '\n' :: rest)) = some (d :: ds, '\n' :: rest) := by
    rw [decimalDigits, bind_peek?_cons]
    generalize hnext : some d = next
    split
    · exact absurd (Option.some.inj hnext) hzero
    · rw [digits, bind_of_eq_some hsatisfy, bind_of_eq_some hmore]
      rfl
  rw [decimalNumber, bind_of_eq_some hdigits]
  rfl

theorem number_digits {d : Char} {ds : List Char} (hd : d.isDigit = true) (hzero : d ≠ '0')
    (hds : ∀ c ∈ ds, c.isDigit = true) (rest : List Char) :
    number (d :: (ds ++ '\n' :: rest)) =
      integerInRange (numberOf 10 (d :: ds)) ('\n' :: rest) := by
  have hsign : sign (d :: (ds ++ '\n' :: rest)) = some (false, d :: (ds ++ '\n' :: rest)) := by
    rw [sign, bind_peek?_cons]
    generalize hnext : some d = next
    split
    · rw [Option.some.inj hnext] at hd
      cases hd
    · rw [Option.some.inj hnext] at hd
      cases hd
    · rfl
  have hspecial : specialFloat false (d :: (ds ++ '\n' :: rest)) = none := by
    have hword (c : Char) (hc : c.isDigit = false) : d ≠ c := by
      rintro rfl
      rw [hd] at hc
      cases hc
    rw [specialFloat, orElse_of_eq_none]
    all_goals
      rw [bind_of_eq_none]
      rw [literal, bind_of_eq_none (char_eq_none (hword _ rfl) _)]
  unfold number
  split
  · next heq => exact absurd (List.cons.inj heq).1 hzero
  · next heq => exact absurd (List.cons.inj heq).1 hzero
  · next heq => exact absurd (List.cons.inj heq).1 hzero
  · rw [signedNumber, bind_of_eq_some hsign, orElse_of_eq_none hspecial,
      decimalNumber_digits hd hzero hds]

/-- A digit begins a date, a time or a number. -/
theorem value_of_digit {d : Char} (hd : d.isDigit = true) (rest : List Char) :
    value (d :: rest) = (datetime <|> number) (d :: rest) := by
  have hvalue : value (d :: rest) = valueAround (some (valueWithin 78)) (d :: rest) := rfl
  have hother (c : Char) (hc : c.isDigit = false) (heq : some d = some c) : False := by
    rw [Option.some.inj heq, hc] at hd
    cases hd
  rw [hvalue, valueAround, bind_peek?_cons]
  generalize hnext : some d = next
  split
  · exact (hother _ rfl hnext).elim
  · exact (hother _ rfl hnext).elim
  · exact (hother _ rfl hnext).elim
  · exact (hother _ rfl hnext).elim
  · exact (hother _ rfl hnext).elim
  · exact (hother _ rfl hnext).elim
  · rfl

theorem number_toDigits {n : Nat} (hn : (n : Int) ≤ maxInteger) (rest : List Char) :
    number (Nat.toDigits 10 n ++ '\n' :: rest) = some (.integer n, '\n' :: rest) := by
  obtain rfl | hpos := Nat.eq_zero_or_pos n
  · rfl
  · have hspelled := numberOf_toDigits n
    have hdigits := isDigit_of_mem_toDigits (n := n)
    have hhead := head_toDigits hpos
    cases htext : Nat.toDigits 10 n with
    | nil => exact absurd htext Nat.toDigits_ne_nil
    | cons d ds =>
        rw [htext] at hspelled hdigits hhead
        rw [List.forall_mem_cons] at hdigits
        have hlow : -maxInteger - 1 ≤ (n : Int) := le_trans (by decide) (Int.natCast_nonneg n)
        rw [List.cons_append, number_digits hdigits.1 (hhead d rfl) hdigits.2, hspelled,
          integerInRange, if_pos ⟨hlow, hn⟩]
        rfl

/-- **The decimal digits of a number of 64 bits are read back.** -/
theorem spells_natural {n : Nat} (hn : (n : Int) ≤ maxInteger) :
    Spells (Nat.toDigits 10 n) (.integer n) where
  head := by
    intro c hc
    have hdigit := isDigit_of_mem_toDigits c (List.mem_of_mem_head? hc)
    by_contra hblank
    rw [Bool.not_eq_false, isBlank, Bool.or_eq_true, beq_iff_eq, beq_iff_eq] at hblank
    obtain rfl | rfl := hblank
    all_goals cases hdigit
  read rest := by
    have hline : DigitLine (Nat.toDigits 10 n ++ '\n' :: rest) :=
      ⟨_, rest, isDigit_of_mem_toDigits, rfl⟩
    have hnumber : (datetime <|> number) (Nat.toDigits 10 n ++ '\n' :: rest) =
        some (.integer n, '\n' :: rest) := by
      rw [orElse_of_eq_none (datetime_eq_none hline), number_toDigits hn]
    rw [← hnumber]
    have hdigits := isDigit_of_mem_toDigits (n := n)
    cases htext : Nat.toDigits 10 n with
    | nil => exact absurd htext Nat.toDigits_ne_nil
    | cons d ds =>
        rw [htext] at hdigits
        exact value_of_digit (hdigits d List.mem_cons_self) _

/-! ## Lines with one entry -/

/-- An entry and the text of its value, on a line of their own. -/
structure PlainLine where
  key : String
  text : List Char
  value : Value
  key_ne : key.toList ≠ []
  bare : ∀ c ∈ key.toList, isBareKey c = true
  spells : Spells text value

namespace PlainLine

def chars (line : PlainLine) : List Char :=
  lineChars line.key line.text

def entry (line : PlainLine) : String × Value :=
  (line.key, line.value)

end PlainLine

/-- A key without quotes is none of the marks that begin something else. -/
theorem ne_of_isBareKey {c d : Char} (hc : isBareKey c = true) (hd : isBareKey d = false) :
    c ≠ d := by
  rintro rfl
  rw [hc] at hd
  cases hd

theorem blanks_of_bare {c : Char} (hc : isBareKey c = true) (rest : List Char) :
    blanks (c :: rest) = some ((), c :: rest) := by
  refine blanks_of_head ?_
  rintro _ ⟨⟩
  rw [isBlank, Bool.or_eq_false_iff, beq_eq_false_iff_ne, beq_eq_false_iff_ne]
  exact ⟨ne_of_isBareKey hc (by decide), ne_of_isBareKey hc (by decide)⟩

theorem simpleKey_of_bare {c : Char} {cs : List Char}
    (hbare : ∀ d ∈ c :: cs, isBareKey d = true) (rest : List Char) :
    simpleKey (c :: cs ++ ' ' :: rest) = some (String.ofList (c :: cs), ' ' :: rest) := by
  have hc := hbare c List.mem_cons_self
  have htake : takeWhile isBareKey (c :: cs ++ ' ' :: rest) = some (c :: cs, ' ' :: rest) := by
    rw [takeWhile, List.takeWhile_append_of_pos hbare, List.dropWhile_append_of_pos hbare]
    simp [isBareKey]
  rw [List.cons_append] at *
  rw [simpleKey, bind_peek?_cons]
  generalize hnext : some c = next
  split
  · exact absurd (Option.some.inj hnext) (ne_of_isBareKey hc (by decide))
  · exact absurd (Option.some.inj hnext) (ne_of_isBareKey hc (by decide))
  · rw [bind_of_eq_some htake]
    rfl

theorem key_of_bare {name : String} (hname : name.toList ≠ [])
    (hbare : ∀ c ∈ name.toList, isBareKey c = true) (rest : List Char) :
    key (name.toList ++ ' ' :: '=' :: rest) = some (([], name), '=' :: rest) := by
  obtain ⟨c, cs, hcs⟩ := List.exists_cons_of_ne_nil hname
  have hofList : String.ofList (c :: cs) = name := by rw [← hcs, String.ofList_toList]
  rw [hcs] at hbare ⊢
  have hblanks : blanks (c :: cs ++ ' ' :: '=' :: rest) =
      some ((), c :: cs ++ ' ' :: '=' :: rest) :=
    blanks_of_bare (hbare c List.mem_cons_self) _
  have hspace : blanks (' ' :: '=' :: rest) = some ((), '=' :: rest) :=
    blanks_space (by simp [isBlank])
  rw [key, bind_of_eq_some hblanks, bind_of_eq_some (simpleKey_of_bare hbare _),
    bind_of_eq_some hspace, bind_of_eq_some (manyUntil_of_none rfl), hofList]
  rfl

theorem lineRest_newline (rest : List Char) : lineRest ('\n' :: rest) = some ((), rest) :=
  rfl

namespace PlainLine

variable (line : PlainLine)

theorem chars_eq_cons : ∃ c rest, line.chars = c :: rest ∧ isBareKey c = true := by
  obtain ⟨c, cs, hcs⟩ := List.exists_cons_of_ne_nil line.key_ne
  have hbare := line.bare
  rw [hcs] at hbare
  rw [chars, lineChars, hcs]
  exact ⟨c, _, rfl, hbare c List.mem_cons_self⟩

theorem keyValue_chars (rest : List Char) :
    keyValue Toml.value (line.chars ++ rest) =
      some ((([], line.key), line.value), '\n' :: rest) := by
  have hblanks : blanks (' ' :: (line.text ++ '\n' :: rest)) =
      some ((), line.text ++ '\n' :: rest) := by
    refine blanks_space ?_
    intro c hc
    cases htext : line.text with
    | nil =>
        rw [htext] at hc
        cases hc
        rfl
    | cons d ds =>
        rw [htext] at hc
        exact line.spells.head c (htext ▸ hc)
  rw [chars, lineChars, List.append_assoc, List.cons_append, List.cons_append, List.cons_append,
    List.append_assoc, List.singleton_append, keyValue,
    bind_of_eq_some (key_of_bare line.key_ne line.bare _), bind_of_eq_some (char_cons_self _ _),
    bind_of_eq_some hblanks, bind_of_eq_some (line.spells.read rest)]
  rfl

/-- **A plain line is read back**, whatever follows. -/
theorem line?_chars (rest : List Char) :
    line? (line.chars ++ rest) = some (some (.entry [] line.key line.value), rest) := by
  have hread := line.keyValue_chars rest
  obtain ⟨c, cs, hcs, hc⟩ := line.chars_eq_cons
  rw [hcs, List.cons_append] at hread ⊢
  rw [line?, bind_of_eq_some (blanks_of_bare hc _), bind_peek?_cons]
  generalize hnext : some c = next
  split
  · cases hnext
  · exact absurd (Option.some.inj hnext) (ne_of_isBareKey hc (by decide))
  · exact absurd (Option.some.inj hnext) (ne_of_isBareKey hc (by decide))
  · exact absurd (Option.some.inj hnext) (ne_of_isBareKey hc (by decide))
  · exact absurd (Option.some.inj hnext) (ne_of_isBareKey hc (by decide))
  · rw [bind_of_eq_some hread]
    exact bind_of_eq_some (lineRest_newline rest) _

end PlainLine

/-! ## Documents -/

/-- The document that the lines make up. -/
def plainText (lines : List PlainLine) : String :=
  String.ofList (lines.flatMap PlainLine.chars)

theorem lines_plainText (ls : List PlainLine) :
    lines (ls.flatMap PlainLine.chars) =
      some (ls.map fun line => .entry [] line.key line.value, []) := by
  induction ls with
  | nil => exact manyUntil_of_none rfl
  | cons line ls ih =>
      rw [List.flatMap_cons]
      refine manyUntil_of_some (line.line?_chars _) ?_ ih
      rw [List.length_append, PlainLine.chars, lineChars, List.length_append, List.length_cons]
      omega

/-- A new key is added to the section in front of all headers. -/
theorem Draft.add_entry {d : Draft} {name : String} (value : Value)
    (hsection : d.current.origin = .header) (hname : name ∉ d.current.entries.keys) :
    d.add (.entry [] name value) =
      some ⟨d.finished, d.place, ⟨.header, d.current.entries ++ [(name, value)]⟩⟩ := by
  have hinsert : d.current.insertAt? [] name value =
      some ⟨.header, d.current.entries ++ [(name, value)]⟩ := by
    rw [Table.insertAt?, Table.descend, hsection]
    rw [if_neg (by decide), Table.insert?, Entries.find?_eq_none_iff.2 hname, hsection]
  rw [add, hinsert]
  rfl

theorem foldlM_add_plainLines (ls : List PlainLine) (d : Draft)
    (hsection : d.current.origin = .header)
    (hnodup : (d.current.entries.keys ++ ls.map PlainLine.key).Nodup) :
    (ls.map fun line => Line.entry [] line.key line.value).foldlM Draft.add d =
      some ⟨d.finished, d.place, ⟨.header, d.current.entries ++ ls.map PlainLine.entry⟩⟩ := by
  induction ls generalizing d with
  | nil =>
      rw [List.map_nil, List.map_nil, List.append_nil, ← hsection]
      rfl
  | cons line ls ih =>
      have hkeys : Entries.keys (d.current.entries ++ [(line.key, line.value)]) =
          d.current.entries.keys ++ [line.key] := by
        rw [Entries.keys, List.map_append]
        rfl
      rw [List.map_cons] at hnodup
      have hnew : line.key ∉ d.current.entries.keys := by
        intro hmem
        exact (List.nodup_append.1 hnodup).2.2 _ hmem _ List.mem_cons_self rfl
      rw [List.map_cons, List.foldlM_cons, Draft.add_entry line.value hsection hnew]
      refine (ih _ rfl ?_).trans ?_
      · rw [hkeys, List.append_assoc]
        exact hnodup
      · rw [List.append_assoc]
        rfl

/-- **A document of plain lines** under distinct keys is read back. -/
theorem parse_plainText {ls : List PlainLine} (hnodup : (ls.map PlainLine.key).Nodup) :
    parse (plainText ls) = some (ls.map PlainLine.entry) := by
  have hmark : withoutMark (ls.flatMap PlainLine.chars) = ls.flatMap PlainLine.chars := by
    cases ls with
    | nil => rfl
    | cons line ls =>
        obtain ⟨c, cs, hcs, hc⟩ := line.chars_eq_cons
        rw [List.flatMap_cons, hcs, List.cons_append]
        unfold withoutMark
        split
        · next heq => exact absurd (List.cons.inj heq).1 (ne_of_isBareKey hc (by decide))
        · rfl
  have hassemble : assemble (ls.map fun line => .entry [] line.key line.value) =
      some (ls.map PlainLine.entry) := by
    rw [assemble, foldlM_add_plainLines ls Draft.empty rfl hnodup]
    rfl
  rw [parse, plainText, String.toList_ofList, hmark, lines_plainText]
  exact hassemble

/-! ## Documents that are written -/

theorem isBare_iff {key : String} :
    isBare key = true ↔ key.toList ≠ [] ∧ ∀ c ∈ key.toList, isBareKey c = true := by
  simp [isBare]

/-- A plain value is read from its text. -/
theorem Value.exists_text {v : Value} (h : v.isPlain = true) :
    ∃ text, v.text? = some text ∧ Spells text v := by
  cases v with
  | string text =>
      rw [Value.isPlain] at h
      refine ⟨_, ?_, spells_string (List.all_eq_true.1 h)⟩
      rw [Value.text?, if_pos h]
  | integer n =>
      rw [Value.isPlain, decide_eq_true_eq] at h
      obtain ⟨n, rfl⟩ := Int.eq_ofNat_of_zero_le h.1
      exact ⟨_, if_pos h.2, spells_natural h.2⟩
  | _ => cases h

/-- A plain value under a key without quotes is written on a plain line. -/
theorem exists_plainLine {entry : String × Value} (hkey : isBare entry.1 = true)
    (hvalue : entry.2.isPlain = true) :
    ∃ line : PlainLine, line.entry = entry ∧ lineOf? entry = some line.chars := by
  obtain ⟨text, htext, hspells⟩ := entry.2.exists_text hvalue
  obtain ⟨hne, hbare⟩ := isBare_iff.1 hkey
  refine ⟨⟨entry.1, text, entry.2, hne, hbare, hspells⟩, rfl, ?_⟩
  rw [lineOf?, if_pos hkey, htext]
  rfl

/-- Plain entries are written on plain lines. -/
theorem exists_plainLines {entries : Entries}
    (h : ∀ entry ∈ entries, isBare entry.1 = true ∧ entry.2.isPlain = true) :
    ∃ ls : List PlainLine, ls.map PlainLine.entry = entries ∧
      entries.mapM lineOf? = some (ls.map PlainLine.chars) := by
  induction entries with
  | nil => exact ⟨[], rfl, rfl⟩
  | cons entry entries ih =>
      rw [List.forall_mem_cons] at h
      obtain ⟨line, rfl, hline⟩ := exists_plainLine h.1.1 h.1.2
      obtain ⟨ls, rfl, hls⟩ := ih h.2
      refine ⟨line :: ls, rfl, ?_⟩
      rw [List.mapM_cons, hline, hls]
      rfl

/-- **The format of settings files keeps to its standard.** -/
theorem lawful_format : format.Lawful where
  nodup_keys h := (proper_parse h).nodup
  integers_fit h := (proper_parse h).fits
  read_write := by
    intro entries hnodup hplain
    obtain ⟨ls, rfl, hwritten⟩ := exists_plainLines hplain
    rw [Entries.keys, List.map_map] at hnodup
    refine ⟨plainText ls, ?_, parse_plainText hnodup⟩
    have hwrite : format.write (ls.map PlainLine.entry) =
        ((ls.map PlainLine.entry).mapM lineOf?).map fun lines => String.ofList lines.flatten := rfl
    rw [hwrite, hwritten, Option.map_some, plainText, List.flatMap_def]

/-- What is written of plain entries is read. -/
theorem parse_of_write {entries : Entries} {text : String} (hnodup : entries.keys.Nodup)
    (hplain : ∀ entry ∈ entries, isBare entry.1 = true ∧ entry.2.isPlain = true)
    (hwrite : write entries = some text) : parse text = some entries := by
  obtain ⟨written, hwritten, hread⟩ := lawful_format.read_write hnodup hplain
  have hsame : some text = some written := hwrite.symm.trans hwritten
  rw [Option.some.inj hsame]
  exact hread

end KWayMerge.Toml
