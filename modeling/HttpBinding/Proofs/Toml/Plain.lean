import HttpBinding.Text.Numeral
import HttpBinding.Toml.Document

/-!
# HttpBinding.Proofs.Toml.Plain

Documents that are written without quotes, dots, signs and nesting.

A plain document is a list of lines, each of which is blank, a comment, a header with a bare key,
or a bare key with a natural number. `Line.write` writes a line and `Line.effect?` says what it does
to a document. The law (`read?_plain`) says that the reader of documents does exactly that, line by
line. A number that an integer of 64 bits cannot hold spoils the whole document.

The proof follows the reader: a numeral is one word, and no other kind of word (`value?_toDigits`);
a bare key ends where it was meant to end (`key?_bare`); a line is read whatever follows it
(`lines?_write`).
-/

namespace HttpBinding.Toml

/-! ### Numbers -/

/-- A run of digits has no separators to take out. -/
theorem ungroup?_of_isDigit {ds : List Char} (hne : ds ≠ []) (h : ∀ c ∈ ds, c.isDigit = true) :
    ungroup? Char.isDigit ds = some ds := by
  induction ds with
  | nil => exact absurd rfl hne
  | cons c ds ih =>
      have hc : c.isDigit = true := h c (by simp)
      cases ds with
      | nil => simp [ungroup?, hc]
      | cons d ds =>
          have hrest := ih (by simp) fun e he => h e (by simp [he])
          have hseparator : d ≠ '_' := by
            rintro rfl
            exact absurd (h '_' (by simp)) (by decide)
          rw [ungroup?]
          · simp [hc, hrest]
          · simp
          · simpa using hseparator

/-- Numerals are written without leading zeros. -/
theorem decimalDigits?_toDigits (n : Nat) :
    decimalDigits? (Nat.toDigits 10 n) = some (Nat.toDigits 10 n) := by
  rw [decimalDigits?, ungroup?_of_isDigit Nat.toDigits_ne_nil Text.isDigit_of_mem_toDigits]
  rcases Nat.eq_zero_or_pos n with rfl | hn
  · rfl
  · simp [Option.filter, Text.head?_toDigits_ne_zero hn]

theorem splitSign_of_isDigit {ds : List Char} (h : ∀ c ∈ ds, c.isDigit = true) :
    splitSign ds = (false, ds) := by
  unfold splitSign
  split
  · exact absurd (h '-' (by simp)) (by decide)
  · exact absurd (h '+' (by simp)) (by decide)
  · rfl

/-- What is left after two digits was there before. -/
theorem suffix_of_twoDigits? {most : Nat} {cs : List Char} {read : Nat × List Char}
    (h : twoDigits? most cs = some read) : read.2 <:+ cs := by
  unfold twoDigits? at h
  split at h
  · rename_i a b rest
    simp only [Option.ite_none_right_eq_some, Option.some.injEq] at h
    rw [← h.2]
    exact List.suffix_append [a, b] rest
  · cases h

/-- What is not there is not found. -/
theorem expect?_of_not_mem {c : Char} {cs : List Char} (h : c ∉ cs) : expect? [c] cs = none := by
  cases cs with
  | nil => rfl
  | cons d cs =>
      rw [List.mem_cons, not_or] at h
      simp [expect?, h.1]

/-- A word of digits has no dash and no colon, so it is neither a date nor a time. -/
theorem isMoment_of_isDigit {ds : List Char} (h : ∀ c ∈ ds, c.isDigit = true) :
    isMoment ds = false := by
  have hdate : date? ds = none := by
    unfold date?
    split
    · exact absurd (h '-' (by simp)) (by decide)
    · rfl
  have htime : time? ds = none := by
    cases hhour : twoDigits? 23 ds with
    | none => simp [time?, hhour]
    | some hour =>
        have hcolon : ':' ∉ hour.2 := fun hmem =>
          absurd (h ':' ((suffix_of_twoDigits? hhour).mem hmem)) (by decide)
        simp [time?, hhour, expect?_of_not_mem hcolon]
  simp [isMoment, hdate, htime]

/-- A word of digits has neither a fraction nor an exponent. -/
theorem isFloat_of_isDigit {ds : List Char} (h : ∀ c ∈ ds, c.isDigit = true) :
    isFloat ds = false := by
  have hgrouped : ∀ c ∈ ds, isGrouped c = true := fun c hc => by simp [isGrouped, h c hc]
  have hend : (ds ++ []).dropWhile isGrouped = [] := List.dropWhile_append_of_pos hgrouped
  rw [List.append_nil] at hend
  have hinf : ds ≠ ['i', 'n', 'f'] := by
    rintro rfl
    exact absurd (h 'i' (by simp)) (by decide)
  have hnan : ds ≠ ['n', 'a', 'n'] := by
    rintro rfl
    exact absurd (h 'n' (by simp)) (by decide)
  simp [isFloat, splitSign_of_isDigit h, hinf, hnan, hend]

theorem integer?_toDigits (n : Nat) : integer? (Nat.toDigits 10 n) = int64? n := by
  have hdigits := Text.isDigit_of_mem_toDigits (n := n)
  unfold integer?
  split
  · rename_i heq
    exact absurd (hdigits 'x' (by simp [heq])) (by decide)
  · rename_i heq
    exact absurd (hdigits 'o' (by simp [heq])) (by decide)
  · rename_i heq
    exact absurd (hdigits 'b' (by simp [heq])) (by decide)
  · simp [splitSign_of_isDigit hdigits, decimalDigits?_toDigits, Nat.ofDigitChars_ten_toDigits]

theorem wordValue?_toDigits (n : Nat) :
    wordValue? (Nat.toDigits 10 n) = (int64? n).map .integer := by
  have hdigits := Text.isDigit_of_mem_toDigits (n := n)
  have htrue : Nat.toDigits 10 n ≠ ['t', 'r', 'u', 'e'] := fun heq =>
    Text.not_mem_toDigits (c := 't') (by decide) n (by simp [heq])
  have hfalse : Nat.toDigits 10 n ≠ ['f', 'a', 'l', 's', 'e'] := fun heq =>
    Text.not_mem_toDigits (c := 'f') (by decide) n (by simp [heq])
  simp [wordValue?, htrue, hfalse, isMoment_of_isDigit hdigits, isFloat_of_isDigit hdigits,
    integer?_toDigits]

/-- A numeral at the end of a line is read as the number that it writes, if that has 64 bits. -/
theorem value?_toDigits (depth n : Nat) (rest : List Char) :
    value? depth (Nat.toDigits 10 n ++ '\n' :: rest) =
      (int64? n).map fun n => (.integer n, '\n' :: rest) := by
  have hdigits := Text.isDigit_of_mem_toDigits (n := n)
  have hword : ∀ c ∈ Nat.toDigits 10 n, isWord c = true := fun c hc => by
    simp [isWord, Char.isAlphanum, hdigits c hc]
  have htake : (Nat.toDigits 10 n ++ '\n' :: rest).takeWhile isWord = Nat.toDigits 10 n := by
    rw [List.takeWhile_append_of_pos hword, List.takeWhile_cons_of_neg (by decide),
      List.append_nil]
  have hdrop : (Nat.toDigits 10 n ++ '\n' :: rest).dropWhile isWord = '\n' :: rest := by
    rw [List.dropWhile_append_of_pos hword, List.dropWhile_cons_of_neg (by decide)]
  have hvalue : word? (Nat.toDigits 10 n ++ '\n' :: rest) =
      (int64? n).map fun n => (.integer n, '\n' :: rest) := by
    simp [word?, htake, hdrop, wordValue?_toDigits, Function.comp_def]
  -- the first character is a digit, so the value is neither quoted nor nested
  obtain ⟨c, cs, hcs⟩ := List.exists_cons_of_ne_nil (Nat.toDigits_ne_nil (n := n) (b := 10))
  have hne {d : Char} (hd : d.isDigit = false) : c ≠ d := by
    rintro rfl
    exact Text.not_mem_toDigits hd n (by simp [hcs])
  rw [hcs, List.cons_append] at hvalue ⊢
  rw [value?.eq_def]
  simp [hne (d := '"') (by decide), hne (d := '\'') (by decide), hne (d := '[') (by decide),
    hne (d := '{') (by decide), hne (d := '_') (by decide), hne (d := '.') (by decide),
    hne (d := ':') (by decide), hvalue]

/-- For a natural number only the upper end of the range counts. -/
theorem int64?_natCast (n : Nat) : int64? n = if n < 1 <<< 63 then some (n : Int) else none := by
  have hmin : Int64.minValue.toInt = -9223372036854775808 := rfl
  have hmax : Int64.maxValue.toInt = 9223372036854775807 := rfl
  have hshift : 1 <<< 63 = 9223372036854775808 := rfl
  unfold int64?
  rw [hmin, hmax, hshift]
  split <;> split <;> first | rfl | omega

/-! ### Spaces and keys -/

/-- Nothing is skipped in front of a character that is no space. -/
theorem skipSpaces_cons {c : Char} (hc : isSpace c = false) (cs : List Char) :
    skipSpaces (c :: cs) = c :: cs :=
  List.dropWhile_cons_of_neg (by simp [hc])

theorem skipSpaces_toDigits (n : Nat) (rest : List Char) :
    skipSpaces (' ' :: (Nat.toDigits 10 n ++ rest)) = Nat.toDigits 10 n ++ rest := by
  obtain ⟨c, cs, hcs⟩ := List.exists_cons_of_ne_nil (Nat.toDigits_ne_nil (n := n) (b := 10))
  have hc : isSpace c = false := by
    have hne {d : Char} (hd : d.isDigit = false) : c ≠ d := by
      rintro rfl
      exact Text.not_mem_toDigits hd n (by simp [hcs])
    simp [isSpace, hne (d := ' ') (by decide), hne (d := '\t') (by decide)]
  rw [skipSpaces, List.dropWhile_cons_of_pos (by decide), hcs]
  exact skipSpaces_cons hc _

theorem lineEnd?_feed (rest : List Char) : lineEnd? ('\n' :: rest) = some rest := by
  simp [lineEnd?, skipSpaces_cons (c := '\n') (by decide), skipComment, newline?]

/-- A text that can be a key without quotes. -/
structure IsBareKey (key : String) : Prop where
  ne_nil : key.toList ≠ []
  bare : ∀ c ∈ key.toList, isBare c = true

theorem ne_of_isBare {c d : Char} (hc : isBare c = true) (hd : isBare d = false) : c ≠ d := by
  rintro rfl
  rw [hc] at hd
  cases hd

theorem isSpace_of_isBare {c : Char} (hc : isBare c = true) : isSpace c = false := by
  simp [isSpace, ne_of_isBare hc (d := ' ') (by decide), ne_of_isBare hc (d := '\t') (by decide)]

theorem IsBareKey.cons {key : String} (h : IsBareKey key) :
    ∃ c cs, key.toList = c :: cs ∧ isBare c = true := by
  obtain ⟨c, cs, hcs⟩ := List.exists_cons_of_ne_nil h.ne_nil
  exact ⟨c, cs, hcs, h.bare c (by simp [hcs])⟩

/-- A bare key ends at the first character that cannot be part of one. -/
theorem keyPart?_bare {key : String} (h : IsBareKey key) {stop : Char}
    (hstop : isBare stop = false) (rest : List Char) :
    keyPart? (key.toList ++ stop :: rest) = some (key, stop :: rest) := by
  have htake : (key.toList ++ stop :: rest).takeWhile isBare = key.toList := by
    rw [List.takeWhile_append_of_pos h.bare, List.takeWhile_cons_of_neg (by simp [hstop]),
      List.append_nil]
  have hdrop : (key.toList ++ stop :: rest).dropWhile isBare = stop :: rest := by
    rw [List.dropWhile_append_of_pos h.bare, List.dropWhile_cons_of_neg (by simp [hstop])]
  obtain ⟨c, cs, hcs, hc⟩ := h.cons
  unfold keyPart?
  split
  · rename_i heq
    rw [hcs] at heq
    exact absurd (List.cons.inj heq).1 (ne_of_isBare hc (by decide))
  · rename_i heq
    rw [hcs] at heq
    exact absurd (List.cons.inj heq).1 (ne_of_isBare hc (by decide))
  · simp only [htake, hdrop, List.isEmpty_iff, h.ne_nil, if_false, String.ofList_toList]

/-- A bare key is all of a key unless a dot follows, perhaps after spaces. -/
theorem key?_bare {key : String} (h : IsBareKey key) {stop next : Char} {rest more : List Char}
    (hstop : isBare stop = false) (hnext : skipSpaces (stop :: rest) = next :: more)
    (hdot : next ≠ '.') (limit : Nat) :
    key? (limit + 1) (key.toList ++ stop :: rest) = some (([], key), next :: more) := by
  have hskip : skipSpaces (key.toList ++ stop :: rest) = key.toList ++ stop :: rest := by
    obtain ⟨c, cs, hcs, hc⟩ := h.cons
    rw [hcs]
    exact skipSpaces_cons (isSpace_of_isBare hc) _
  simp only [key?, hskip, keyPart?_bare h hstop, hnext, Option.bind_eq_bind, Option.bind_some]
  split
  · rename_i heq
    exact absurd (List.cons.inj heq).1 hdot
  · rfl

/-! ### Lines -/

/-- A line of a plain document. -/
inductive Line where
  | blank
  | comment (text : String)
  /-- The table with a bare key is defined. -/
  | header (key : String)
  /-- A bare key is given a number. -/
  | number (key : String) (n : Nat)

namespace Line

/-- The line as it is written. -/
def write : Line → List Char
  | blank => ['\n']
  | comment text => '#' :: text.toList ++ ['\n']
  | header key => '[' :: key.toList ++ [']', '\n']
  | number key n => key.toList ++ [' ', '=', ' '] ++ Nat.toDigits 10 n ++ ['\n']

/-- The line holds nothing that it must not hold. -/
def IsPlain : Line → Prop
  | blank => True
  | comment text => ∀ c ∈ text.toList, isPlain c = true
  | header key | number key _ => IsBareKey key

/-- What the line does to a document. -/
def effect? (d : Document) : Line → Option Document
  | blank | comment _ => some d
  | header key => d.atHeader [] key defineHere
  | number key n => (int64? n).bind fun n => d.put [] key (.integer n)

theorem write_ne_nil (line : Line) : line.write ≠ [] := by
  cases line <;> simp [write]

end Line

/-- A line that is neither blank nor a comment does something to the document. -/
theorem lines?_cons (fuel : Nat) (d : Document) {c : Char} {cs : List Char}
    (hspace : isSpace c = false) (hcomment : c ≠ '#') (hfeed : c ≠ '\n') (hreturn : c ≠ '\r') :
    Document.lines? (fuel + 1) d (c :: cs) =
      (d.line? (c :: cs)).bind fun r => Document.lines? fuel r.1 r.2 := by
  simp [Document.lines?, skipSpaces_cons hspace, hcomment, hfeed, hreturn]

theorem line?_header {key : String} (h : IsBareKey key) (d : Document) (rest : List Char) :
    d.line? ('[' :: key.toList ++ [']', '\n'] ++ rest) =
      (d.atHeader [] key defineHere).map fun d => (d, rest) := by
  obtain ⟨c, cs, hcs, hc⟩ := h.cons
  have hkey : key? depthLimit (key.toList ++ ']' :: '\n' :: rest) =
      some (([], key), ']' :: '\n' :: rest) :=
    key?_bare h (by decide) (skipSpaces_cons (by decide) _) (by decide) 78
  simp only [List.cons_append, List.append_assoc, List.nil_append]
  unfold Document.line?
  split
  · rename_i heq
    rw [hcs] at heq
    exact absurd (List.cons.inj (List.cons.inj heq).2).1 (ne_of_isBare hc (by decide))
  · rename_i heq
    obtain rfl := (List.cons.inj heq).2
    simp only [hkey, Option.bind_eq_bind, Option.bind_some, expect?, BEq.rfl, if_true, lineEnd?_feed]
    exact Option.map_eq_bind.symm
  · rename_i hno
    exact absurd rfl (hno _)

theorem line?_number {key : String} (h : IsBareKey key) (n : Nat) (d : Document)
    (rest : List Char) :
    d.line? (key.toList ++ [' ', '=', ' '] ++ Nat.toDigits 10 n ++ ['\n'] ++ rest) =
      ((int64? n).bind fun n => d.put [] key (.integer n)).map fun d => (d, rest) := by
  obtain ⟨c, cs, hcs, hc⟩ := h.cons
  have hkey : key? depthLimit
      (key.toList ++ ' ' :: '=' :: ' ' :: (Nat.toDigits 10 n ++ '\n' :: rest)) =
        some (([], key), '=' :: ' ' :: (Nat.toDigits 10 n ++ '\n' :: rest)) :=
    key?_bare h (by decide) rfl (by decide) 78
  simp only [List.cons_append, List.append_assoc, List.nil_append]
  unfold Document.line?
  split
  · rename_i heq
    rw [hcs] at heq
    exact absurd (List.cons.inj heq).1 (ne_of_isBare hc (by decide))
  · rename_i heq
    rw [hcs] at heq
    exact absurd (List.cons.inj heq).1 (ne_of_isBare hc (by decide))
  · simp only [hkey, Option.bind_eq_bind, Option.bind_some, expect?, BEq.rfl, if_true,
      skipSpaces_toDigits, value?_toDigits]
    cases int64? n with
    | none => rfl
    | some m =>
        simp only [Option.map_some, Option.bind_some, lineEnd?_feed]
        exact Option.map_eq_bind.symm

/-- **A plain line.** Whatever follows it, the document is changed as the line says, and reading
goes on behind it. -/
theorem lines?_write {line : Line} (h : line.IsPlain) (fuel : Nat) (d : Document)
    (rest : List Char) :
    Document.lines? (fuel + 1) d (line.write ++ rest) =
      (line.effect? d).bind fun d => Document.lines? fuel d rest := by
  cases line with
  | blank =>
      simp [Document.lines?, Line.write, Line.effect?, skipSpaces_cons (c := '\n') (by decide),
        lineEnd?_feed]
  | comment text =>
      have hdrop : (text.toList ++ '\n' :: rest).dropWhile isPlain = '\n' :: rest := by
        rw [List.dropWhile_append_of_pos h, List.dropWhile_cons_of_neg (by decide)]
      have hend : lineEnd? ('#' :: (text.toList ++ '\n' :: rest)) = some rest := by
        simp [lineEnd?, skipSpaces_cons (c := '#') (by decide), skipComment, hdrop, newline?]
      simp [Document.lines?, Line.write, Line.effect?, skipSpaces_cons (c := '#') (by decide), hend]
  | header key =>
      have hline := line?_header h d rest
      simp only [Line.write, Line.effect?, List.cons_append] at hline ⊢
      rw [lines?_cons fuel d (by decide) (by decide) (by decide) (by decide), hline,
        Option.bind_map]
      rfl
  | number key n =>
      obtain ⟨c, cs, hcs, hc⟩ := h.cons
      have hline := line?_number h n d rest
      simp only [Line.write, Line.effect?]
      rw [hcs] at hline ⊢
      simp only [List.cons_append] at hline ⊢
      rw [lines?_cons fuel d (isSpace_of_isBare hc) (ne_of_isBare hc (by decide))
        (ne_of_isBare hc (by decide)) (ne_of_isBare hc (by decide)), hline, Option.bind_map]
      rfl

theorem lines?_flatMap_write {lines : List Line} (h : ∀ line ∈ lines, line.IsPlain) (fuel : Nat)
    (d : Document) (rest : List Char) :
    Document.lines? (fuel + lines.length) d (lines.flatMap Line.write ++ rest) =
      (lines.foldlM Line.effect? d).bind fun d => Document.lines? fuel d rest := by
  induction lines generalizing d with
  | nil => simp
  | cons line lines ih =>
      have hrest := ih fun other hother => h other (by simp [hother])
      rw [List.flatMap_cons, List.append_assoc, List.length_cons, ← Nat.add_assoc,
        lines?_write (h line (by simp)), List.foldlM_cons]
      simp only [hrest, Option.bind_eq_bind, Option.bind_assoc]

/-- Each line has a character at least. -/
theorem length_le_length_write (lines : List Line) :
    lines.length ≤ (lines.flatMap Line.write).length := by
  induction lines with
  | nil => simp
  | cons line lines ih =>
      have hline := List.length_pos_iff.2 line.write_ne_nil
      simp only [List.flatMap_cons, List.length_append, List.length_cons]
      omega

/-- A plain document does not begin with a byte order mark. -/
theorem skipMark_write {lines : List Line} (h : ∀ line ∈ lines, line.IsPlain) :
    skipMark (lines.flatMap Line.write) = lines.flatMap Line.write := by
  unfold skipMark
  split
  · rename_i cs heq
    cases lines with
    | nil => cases heq
    | cons line lines =>
        have hline : line.IsPlain := h line (by simp)
        rw [List.flatMap_cons] at heq
        cases line with
        | blank | comment | header => cases heq
        | number key n =>
            obtain ⟨c, cs, hcs, hc⟩ := hline.cons
            simp only [Line.write, hcs, List.cons_append] at heq
            exact absurd (List.cons.inj heq).1 (ne_of_isBare hc (by decide))
  · rfl

/-- **A plain document is read line by line**, each line doing to the document what it says. -/
theorem read?_plain {lines : List Line} (h : ∀ line ∈ lines, line.IsPlain) :
    read? (String.ofList (lines.flatMap Line.write)) =
      (lines.foldlM Line.effect? {}).map fun d => tableOf d.entries := by
  obtain ⟨spare, hspare⟩ := Nat.exists_eq_add_of_le (length_le_length_write lines)
  have hread := lines?_flatMap_write h (spare + 1) {} []
  have hfuel : spare + 1 + lines.length = (lines.flatMap Line.write).length + 1 := by omega
  rw [List.append_nil, hfuel] at hread
  simp only [read?, String.toList_ofList, skipMark_write h, hread, Option.map_bind]
  cases lines.foldlM Line.effect? {} <;> rfl

end HttpBinding.Toml
