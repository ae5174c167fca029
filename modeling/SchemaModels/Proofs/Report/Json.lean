import SchemaModels.Proofs.Text.Parts
import SchemaModels.Report.Json

namespace SchemaModels.Json

def isSpace (c : Char) : Bool := c == ' ' || c == '\t' || c == '\n' || c == '\r'

def skipSpace (cs : List Char) : List Char := cs.dropWhile isSpace

section Strings

def hexValue? (c : Char) : Option Nat :=
  if c.isDigit then some (c.toNat - '0'.toNat)
  else if 'a' ≤ c ∧ c ≤ 'f' then some (10 + (c.toNat - 'a'.toNat))
  else if 'A' ≤ c ∧ c ≤ 'F' then some (10 + (c.toNat - 'A'.toNat))
  else none

def hexUnit? (digits : List Char) : Option Nat :=
  (digits.mapM hexValue?).map fun values => values.foldl (fun unit value => 16 * unit + value) 0

/-- The character that a letter behind a backslash stands for. -/
def escaped? : Char → Option Char
  | '"' => some '"'
  | '\\' => some '\\'
  | '/' => some '/'
  | 'b' => some '\x08'
  | 'f' => some '\x0c'
  | 'n' => some '\n'
  | 'r' => some '\r'
  | 't' => some '\t'
  | _ => none

def consUnit (unit : Nat) : Option (List Nat × List Char) → Option (List Nat × List Char) :=
  Option.map fun (units, rest) => (unit :: units, rest)

/-- The code units of a string up to the quote that closes it, and the text behind that. A character
that is not escaped is a unit of its own, whatever its code is. -/
def readUnits? : List Char → Option (List Nat × List Char)
  | [] => none
  | '"' :: rest => some ([], rest)
  | '\\' :: 'u' :: p :: q :: r :: s :: rest =>
    (hexUnit? [p, q, r, s]).bind fun unit => consUnit unit (readUnits? rest)
  | '\\' :: letter :: rest =>
    (escaped? letter).bind fun c => consUnit c.toNat (readUnits? rest)
  | c :: rest =>
    if c = '\\' ∨ c.toNat < 0x20 then none else consUnit c.toNat (readUnits? rest)

/-- The characters of code units. A high surrogate and a low one behind it are one character; no
surrogate stands alone. -/
def ofUnits? : List Nat → Option (List Char)
  | [] => some []
  | unit :: units =>
    if unit < 0xd800 ∨ 0xdfff < unit then (ofUnits? units).map (Char.ofNat unit :: ·)
    else
      match units with
      | low :: rest =>
        if unit < 0xdc00 ∧ 0xdc00 ≤ low ∧ low ≤ 0xdfff then
          (ofUnits? rest).map
            (Char.ofNat (0x10000 + 0x400 * (unit - 0xd800) + (low - 0xdc00)) :: ·)
        else none
      | [] => none

def readString? (cs : List Char) : Option (String × List Char) := do
  let (units, rest) ← readUnits? cs
  return (String.ofList (← ofUnits? units), rest)

theorem hexUnit?_control : ∀ n < 0x20,
    hexUnit? ['0', '0', hexDigit (n / 16), hexDigit (n % 16)] = some n := by
  decide

theorem readUnits?_letter {letter c : Char} (h : escaped? letter = some c) (cs : List Char) :
    readUnits? ('\\' :: letter :: cs) = consUnit c.toNat (readUnits? cs) := by
  have hletter : letter ≠ 'u' := by
    rintro rfl
    cases h
  simp [readUnits?, hletter, h]

theorem readUnits?_escape (c : Char) (cs : List Char) :
    readUnits? (escape c ++ cs) = consUnit c.toNat (readUnits? cs) := by
  unfold escape
  split
  · exact readUnits?_letter rfl cs
  · exact readUnits?_letter rfl cs
  · exact readUnits?_letter rfl cs
  · exact readUnits?_letter rfl cs
  · exact readUnits?_letter rfl cs
  · exact readUnits?_letter rfl cs
  · exact readUnits?_letter rfl cs
  · rename_i hquote hbackslash _ _ _ _ _
    split
    · rename_i hcontrol
      simp [readUnits?, hexUnit?_control c.toNat hcontrol]
    · rename_i hcontrol
      rw [List.singleton_append, readUnits?, if_neg (not_or.2 ⟨hbackslash, hcontrol⟩)]
      · exact hquote
      · exact fun _ _ _ _ _ h => absurd h hbackslash
      · exact fun _ _ h => absurd h hbackslash

theorem ofUnits?_map_toNat (cs : List Char) : ofUnits? (cs.map Char.toNat) = some cs := by
  induction cs with
  | nil => rfl
  | cons c cs ih =>
    have hvalid : c.toNat < 0xd800 ∨ 0xdfff < c.toNat := by
      have hcode : c.toNat.isValidChar := c.valid
      simp only [Nat.isValidChar] at hcode
      omega
    rw [List.map_cons, ofUnits?.eq_def]
    simp only [if_pos hvalid, ih, Char.ofNat_toNat, Option.map_some]

theorem readUnits?_quoted (cs rest : List Char) :
    readUnits? (cs.flatMap escape ++ '"' :: rest) = some (cs.map Char.toNat, rest) := by
  induction cs with
  | nil => rfl
  | cons c cs ih =>
    rw [List.flatMap_cons, List.append_assoc, readUnits?_escape, ih]
    rfl

theorem readString?_quoted (s : String) (rest : List Char) :
    readString? (s.toList.flatMap escape ++ '"' :: rest) = some (s, rest) := by
  simp [readString?, readUnits?_quoted, ofUnits?_map_toNat]

-- Escapes that are never written are read as well.
example : readString? "\\uD83D\\uDE00\\/\", 1".toList = some ("😀/", ", 1".toList) := by
  decide +kernel

end Strings

section Numbers

/-- A number of decimal digits, without zeros in front. -/
def readNumber? (cs : List Char) : Option (Nat × List Char) :=
  let digits := cs.takeWhile Char.isDigit
  if digits = [] ∨ (digits.head? = some '0' ∧ digits ≠ ['0']) then none
  else some (Nat.ofDigitChars 10 digits 0, cs.dropWhile Char.isDigit)

theorem head?_toDigits {n : Nat} (hn : 0 < n) : (Nat.toDigits 10 n).head? ≠ some '0' := by
  induction n using Nat.strongRecOn with
  | _ n ih =>
    rw [Nat.toDigits_eq_if (by decide)]
    split
    · have hdigit : ∀ k < 10, 0 < k → [Nat.digitChar k].head? ≠ some '0' := by decide
      exact hdigit n ‹_› hn
    · rename_i hten
      rw [List.head?_append_of_ne_nil _ Nat.toDigits_ne_nil]
      exact ih (n / 10) (by omega) (by omega)

theorem readNumber?_toDigits (n : Nat) {rest : List Char}
    (hrest : ∀ c ∈ rest.head?, c.isDigit = false) :
    readNumber? (Nat.toDigits 10 n ++ rest) = some (n, rest) := by
  have hdigits : ∀ c ∈ Nat.toDigits 10 n, c.isDigit = true :=
    fun c hc => Nat.isDigit_of_mem_toDigits (by decide) (by decide) hc
  have hzero : ¬ (Nat.toDigits 10 n = [] ∨
      ((Nat.toDigits 10 n).head? = some '0' ∧ Nat.toDigits 10 n ≠ ['0'])) := by
    rintro (hnil | ⟨hhead, hne⟩)
    · exact Nat.toDigits_ne_nil hnil
    · rcases Nat.eq_zero_or_pos n with rfl | hpos
      · exact hne rfl
      · exact head?_toDigits hpos hhead
  rw [readNumber?, Text.takeWhile_append_eq hdigits hrest, Text.dropWhile_append_eq hdigits hrest]
  simp only [if_neg hzero, Nat.ofDigitChars_ten_toDigits]

end Numbers

def readKey? (cs : List Char) : Option (String × List Char) :=
  match skipSpace cs with
  | '"' :: rest => do
    let (key, rest) ← readString? rest
    match skipSpace rest with
    | ':' :: rest => return (key, rest)
    | _ => none
  | _ => none

mutual

/-- The value at the front of a text, and the text behind it. Blanks may stand between any two
tokens; numbers are natural, and there is no null. Each call has less fuel than the one that makes
it; the length of the text is enough. -/
def readValue? : Nat → List Char → Option (Json × List Char)
  | 0, _ => none
  | fuel + 1, cs =>
    match skipSpace cs with
    | [] => none
    | c :: rest =>
      if c = '"' then (readString? rest).map fun (s, rest) => (.str s, rest)
      else if c = '[' then
        match skipSpace rest with
        | ']' :: rest => some (.arr [], rest)
        | _ => (readItems? fuel rest).map fun (items, rest) => (.arr items, rest)
      else if c = '\x7b' then
        match skipSpace rest with
        | '\x7d' :: rest => some (.obj [], rest)
        | _ => (readMembers? fuel rest).map fun (members, rest) => (.obj members, rest)
      else if "true".toList.isPrefixOf (c :: rest) then some (.bool true, rest.drop 3)
      else if "false".toList.isPrefixOf (c :: rest) then some (.bool false, rest.drop 4)
      else (readNumber? (c :: rest)).map fun (n, rest) => (.num n, rest)

def readItems? : Nat → List Char → Option (List Json × List Char)
  | 0, _ => none
  | fuel + 1, cs => do
    let (item, rest) ← readValue? fuel cs
    match skipSpace rest with
    | ',' :: rest => do
      let (items, rest) ← readItems? fuel rest
      return (item :: items, rest)
    | ']' :: rest => return ([item], rest)
    | _ => none

def readMembers? : Nat → List Char → Option (List (String × Json) × List Char)
  | 0, _ => none
  | fuel + 1, cs => do
    let (key, rest) ← readKey? cs
    let (value, rest) ← readValue? fuel rest
    match skipSpace rest with
    | ',' :: rest => do
      let (members, rest) ← readMembers? fuel rest
      return ((key, value) :: members, rest)
    | '\x7d' :: rest => return ([(key, value)], rest)
    | _ => none

end

def read? (text : List Char) : Option Json :=
  match readValue? (text.length + 1) text with
  | some (j, rest) => if skipSpace rest = [] then some j else none
  | none => none

section Space

theorem isSpace_newline (depth : Nat) : ∀ c ∈ newline depth, isSpace c = true := by
  intro c hc
  rcases List.mem_cons.1 hc with rfl | hblank
  · rfl
  · rw [List.eq_of_mem_replicate hblank]
    rfl

@[simp] theorem skipSpace_newline (depth : Nat) (cs : List Char) :
    skipSpace (newline depth ++ cs) = skipSpace cs :=
  List.dropWhile_append_of_pos (isSpace_newline depth)

theorem skipSpace_cons {c : Char} (h : isSpace c = false) (cs : List Char) :
    skipSpace (c :: cs) = c :: cs :=
  List.dropWhile_cons_of_neg (by simp [h])

theorem readValue?_newline (fuel depth : Nat) (cs : List Char) :
    readValue? fuel (newline depth ++ cs) = readValue? fuel cs := by
  cases fuel with
  | zero => rfl
  | succ fuel => rw [readValue?, readValue?, skipSpace_newline]

theorem readValue?_blank (fuel : Nat) (cs : List Char) :
    readValue? fuel (' ' :: cs) = readValue? fuel cs := by
  have hskip : skipSpace (' ' :: cs) = skipSpace cs := rfl
  cases fuel with
  | zero => rfl
  | succ fuel => rw [readValue?, readValue?, hskip]

theorem readItems?_newline (fuel depth : Nat) (cs : List Char) :
    readItems? fuel (newline depth ++ cs) = readItems? fuel cs := by
  cases fuel with
  | zero => rfl
  | succ fuel => rw [readItems?, readItems?, readValue?_newline]

theorem readMembers?_newline (fuel depth : Nat) (cs : List Char) :
    readMembers? fuel (newline depth ++ cs) = readMembers? fuel cs := by
  cases fuel with
  | zero => rfl
  | succ fuel => rw [readMembers?, readMembers?, readKey?, readKey?, skipSpace_newline]

end Space

section Values

variable (fuel : Nat) (rest : List Char)

theorem readValue?_bool (b : Bool) : readValue? (fuel + 1)
    ((if b then "true" else "false").toList ++ rest) = some (.bool b, rest) := by
  cases b <;> rfl

theorem quote_append (s : String) :
    quote s ++ rest = '"' :: (s.toList.flatMap escape ++ '"' :: rest) := by
  simp [quote]

theorem readValue?_quote (s : String) :
    readValue? (fuel + 1) (quote s ++ rest) = some (.str s, rest) := by
  rw [quote_append, readValue?, skipSpace_cons rfl]
  simp only [if_pos, readString?_quoted, Option.map_some]

theorem readKey?_quote (s : String) :
    readKey? (quote s ++ [':', ' '] ++ rest) = some (s, ' ' :: rest) := by
  rw [List.append_assoc, quote_append, readKey?, skipSpace_cons rfl]
  simp [readString?_quoted, skipSpace_cons (show isSpace ':' = false from rfl)]

theorem exists_toDigits_cons (n : Nat) : ∃ c cs, Nat.toDigits 10 n = c :: cs ∧
    ∀ d : Char, d.isDigit = false → c ≠ d := by
  obtain ⟨c, cs, hcs⟩ := List.exists_cons_of_ne_nil (Nat.toDigits_ne_nil (n := n) (b := 10))
  refine ⟨c, cs, hcs, ?_⟩
  rintro d hd rfl
  have hc : c.isDigit = true :=
    Nat.isDigit_of_mem_toDigits (n := n) (by decide) (by decide) (hcs ▸ List.mem_cons_self)
  exact Bool.false_ne_true (hd.symm.trans hc)

theorem isSpace_eq_false {c : Char} (h : ∀ d : Char, d.isDigit = false → c ≠ d) :
    isSpace c = false := by
  simp [isSpace, h]

theorem readValue?_toDigits (n : Nat) (hrest : ∀ c ∈ rest.head?, c.isDigit = false) :
    readValue? (fuel + 1) (Nat.toDigits 10 n ++ rest) = some (.num n, rest) := by
  obtain ⟨c, ds, hds, hne⟩ := exists_toDigits_cons n
  have hnumber := readNumber?_toDigits n hrest
  rw [hds, List.cons_append] at hnumber ⊢
  have htrue : "true".toList.isPrefixOf (c :: (ds ++ rest)) = false := by
    simp [List.isPrefixOf, (hne 't' rfl).symm]
  have hfalse : "false".toList.isPrefixOf (c :: (ds ++ rest)) = false := by
    simp [List.isPrefixOf, (hne 'f' rfl).symm]
  rw [readValue?, skipSpace_cons (isSpace_eq_false hne)]
  simp only [if_neg (hne '"' rfl), if_neg (hne '[' rfl), if_neg (hne '\x7b' rfl), htrue, hfalse,
    if_neg Bool.false_ne_true, hnumber, Option.map_some]

end Values

theorem exists_enclose_cons (opening closing : Char) (depth : Nat) (items : List (List Char)) :
    ∃ cs, enclose opening closing depth items = opening :: cs := by
  unfold enclose
  split <;> exact ⟨_, rfl⟩

theorem getLast?_enclose (opening closing : Char) (depth : Nat) (items : List (List Char)) :
    (enclose opening closing depth items).getLast? = some closing := by
  unfold enclose
  split
  · rfl
  · exact List.getLast?_concat

/-- No value starts with a blank or with a bracket that closes an array. -/
theorem exists_chars_cons (depth : Nat) (j : Json) :
    ∃ c cs, chars depth j = c :: cs ∧ isSpace c = false ∧ c ≠ ']' := by
  cases j with
  | bool b => cases b <;> exact ⟨_, _, rfl, rfl, by decide⟩
  | num n =>
    obtain ⟨c, cs, hcs, hne⟩ := exists_toDigits_cons n
    exact ⟨c, cs, hcs, isSpace_eq_false hne, hne ']' rfl⟩
  | str s => exact ⟨'"', _, rfl, rfl, by decide⟩
  | arr items =>
    obtain ⟨cs, hcs⟩ := exists_enclose_cons '[' ']' depth (itemChars (depth + 1) items)
    exact ⟨'[', cs, hcs, rfl, by decide⟩
  | obj members =>
    obtain ⟨cs, hcs⟩ := exists_enclose_cons '\x7b' '\x7d' depth (memberChars (depth + 1) members)
    exact ⟨'\x7b', cs, hcs, rfl, by decide⟩

def separate (depth : Nat) (texts : List (List Char)) : List Char :=
  (',' :: newline depth).intercalate texts

theorem separate_singleton (depth : Nat) (text : List Char) : separate depth [text] = text :=
  List.intercalate_singleton

theorem separate_cons (depth : Nat) (text : List Char) {texts : List (List Char)}
    (hne : texts ≠ []) : separate depth (text :: texts) =
      text ++ ((',' :: newline depth) ++ separate depth texts) := by
  rw [separate, List.intercalate_cons_of_ne_nil hne, List.append_assoc, separate]

section Enclosed

variable {fuel depth : Nat} {rest : List Char}

theorem enclose_append (opening closing : Char) {items : List (List Char)} (hne : items ≠ []) :
    enclose opening closing depth items ++ rest = opening :: (newline (depth + 1) ++
      (separate (depth + 1) items ++ (newline depth ++ closing :: rest))) := by
  rw [enclose, separate]
  · simp [List.append_assoc]
  · exact hne

theorem lt_length_enclose (depth : Nat) (opening closing : Char) {items : List (List Char)}
    (hne : items ≠ []) :
    (separate (depth + 1) items).length + 1 < (enclose opening closing depth items).length := by
  have htext : (enclose opening closing depth items ++ []).length = _ :=
    congrArg List.length (enclose_append opening closing hne)
  simp only [List.length_append, List.length_cons, List.length_nil] at htext
  omega

theorem exists_skipSpace_cons {c : Char} (hc : isSpace c = false) (cs : List Char)
    (texts : List (List Char)) (outer : Nat) (back : List Char) : ∃ behind,
    skipSpace (newline outer ++ (separate depth ((c :: cs) :: texts) ++ back)) = c :: behind := by
  rw [skipSpace_newline]
  cases texts with
  | nil => exact ⟨_, by rw [separate_singleton, List.cons_append, skipSpace_cons hc]⟩
  | cons next texts =>
    rw [separate_cons _ _ (List.cons_ne_nil _ _), List.cons_append, List.cons_append,
      skipSpace_cons hc]
    exact ⟨_, rfl⟩

theorem readValue?_items {items : List Json} (hne : items ≠ [])
    (h : readItems? fuel (separate (depth + 1) (itemChars (depth + 1) items) ++
      (newline depth ++ ']' :: rest)) = some (items, rest)) :
    readValue? (fuel + 1) (chars depth (.arr items) ++ rest) = some (.arr items, rest) := by
  obtain ⟨item, items, rfl⟩ := List.exists_cons_of_ne_nil hne
  obtain ⟨c, cs, hcs, hspace, hclosing⟩ := exists_chars_cons (depth + 1) item
  rw [itemChars] at h
  rw [chars, itemChars, enclose_append _ _ (List.cons_ne_nil _ _), readValue?, skipSpace_cons rfl]
  simp only [if_neg (show '[' ≠ '"' by decide), if_pos]
  split
  · rename_i hskip
    obtain ⟨behind, hbehind⟩ := exists_skipSpace_cons hspace cs _ _ _
    rw [hcs, hbehind] at hskip
    exact absurd (List.cons_eq_cons.1 hskip).1 hclosing
  · rw [readItems?_newline, h, Option.map_some]

theorem readValue?_members {members : List (String × Json)} (hne : members ≠ [])
    (h : readMembers? fuel (separate (depth + 1) (memberChars (depth + 1) members) ++
      (newline depth ++ '\x7d' :: rest)) = some (members, rest)) :
    readValue? (fuel + 1) (chars depth (.obj members) ++ rest) = some (.obj members, rest) := by
  obtain ⟨⟨key, value⟩, members, rfl⟩ := List.exists_cons_of_ne_nil hne
  rw [memberChars] at h
  rw [chars, memberChars, enclose_append _ _ (List.cons_ne_nil _ _), readValue?, skipSpace_cons rfl]
  simp only [if_neg (show '\x7b' ≠ '"' by decide), if_neg (show '\x7b' ≠ '[' by decide), if_pos]
  split
  · rename_i hskip
    have hquote : isSpace '"' = false := rfl
    obtain ⟨behind, hbehind⟩ := exists_skipSpace_cons hquote _ _ _ _
    simp only [quote, List.cons_append] at hskip
    rw [hbehind] at hskip
    exact absurd (List.cons_eq_cons.1 hskip).1 (by decide)
  · rw [readMembers?_newline, h, Option.map_some]

variable {text more : List Char} {outer : Nat}

theorem readItems?_last {item : Json}
    (h : readValue? fuel text = some (item, newline outer ++ ']' :: rest)) :
    readItems? (fuel + 1) text = some ([item], rest) := by
  rw [readItems?, h]
  simp [skipSpace_cons (c := ']') rfl]

theorem readItems?_next {item : Json} {items : List Json}
    (h : readValue? fuel text = some (item, (',' :: newline depth) ++ more))
    (hmore : readItems? fuel more = some (items, rest)) :
    readItems? (fuel + 1) text = some (item :: items, rest) := by
  rw [readItems?, h]
  simp [skipSpace_cons (c := ',') rfl, readItems?_newline, hmore]

theorem readMembers?_last {key : String} {value : Json}
    (h : readValue? fuel text = some (value, newline outer ++ '\x7d' :: rest)) :
    readMembers? (fuel + 1) (quote key ++ [':', ' '] ++ text) = some ([(key, value)], rest) := by
  rw [readMembers?, readKey?_quote]
  simp [readValue?_blank, h, skipSpace_cons (c := '\x7d') rfl]

theorem readMembers?_next {key : String} {value : Json} {members : List (String × Json)}
    (h : readValue? fuel text = some (value, (',' :: newline depth) ++ more))
    (hmore : readMembers? fuel more = some (members, rest)) :
    readMembers? (fuel + 1) (quote key ++ [':', ' '] ++ text) =
      some ((key, value) :: members, rest) := by
  rw [readMembers?, readKey?_quote]
  simp [readValue?_blank, h, skipSpace_cons (c := ',') rfl, readMembers?_newline, hmore]

end Enclosed

theorem isDigit_newline (depth : Nat) (cs : List Char) :
    ∀ c ∈ (newline depth ++ cs).head?, c.isDigit = false := by
  rintro c ⟨⟩
  rfl

theorem isDigit_separator (depth : Nat) (cs : List Char) :
    ∀ c ∈ ((',' :: newline depth) ++ cs).head?, c.isDigit = false := by
  rintro c ⟨⟩
  rfl

theorem length_chars_pos (depth : Nat) (j : Json) : 0 < (chars depth j).length := by
  obtain ⟨c, cs, hcs, -⟩ := exists_chars_cons depth j
  rw [hcs]
  exact Nat.succ_pos _

mutual

/-- A value is read back if the fuel is as much as its text is long. -/
theorem readValue?_chars (depth : Nat) : ∀ (j : Json) (fuel : Nat) (rest : List Char),
    (chars depth j).length ≤ fuel → (∀ c ∈ rest.head?, c.isDigit = false) →
    readValue? fuel (chars depth j ++ rest) = some (j, rest)
  | j, 0, _, hfuel, _ => absurd (length_chars_pos depth j) (Nat.not_lt.2 hfuel)
  | .bool b, fuel + 1, rest, _, _ => by rw [chars, readValue?_bool]
  | .num n, fuel + 1, rest, _, hrest => by rw [chars, readValue?_toDigits fuel rest n hrest]
  | .str s, fuel + 1, rest, _, _ => by rw [chars, readValue?_quote]
  | .arr [], fuel + 1, rest, _, _ => by
    rw [chars, itemChars]
    rfl
  | .arr (item :: items), fuel + 1, rest, hfuel, _ => by
    have hne : itemChars (depth + 1) (item :: items) ≠ [] := by simp [itemChars]
    have hlength := lt_length_enclose depth '[' ']' hne
    rw [chars] at hfuel
    exact readValue?_items (List.cons_ne_nil _ _) (readItems?_itemChars (depth + 1) (item :: items)
      fuel depth rest (List.cons_ne_nil _ _) (by omega))
  | .obj [], fuel + 1, rest, _, _ => by
    rw [chars, memberChars]
    rfl
  | .obj (member :: members), fuel + 1, rest, hfuel, _ => by
    have hne : memberChars (depth + 1) (member :: members) ≠ [] := by simp [memberChars]
    have hlength := lt_length_enclose depth '\x7b' '\x7d' hne
    rw [chars] at hfuel
    exact readValue?_members (List.cons_ne_nil _ _) (readMembers?_memberChars (depth + 1)
      (member :: members) fuel depth rest (List.cons_ne_nil _ _) (by omega))

theorem readItems?_itemChars (depth : Nat) : ∀ (items : List Json) (fuel outer : Nat)
    (rest : List Char), items ≠ [] → (separate depth (itemChars depth items)).length < fuel →
    readItems? fuel (separate depth (itemChars depth items) ++ (newline outer ++ ']' :: rest)) =
      some (items, rest)
  | [], _, _, _, hne, _ => absurd rfl hne
  | [item], fuel + 1, outer, rest, _, hfuel => by
    rw [itemChars, itemChars, separate_singleton] at hfuel ⊢
    exact readItems?_last (readValue?_chars depth item fuel _ (Nat.le_of_lt_succ hfuel)
      (isDigit_newline outer _))
  | item :: next :: items, fuel + 1, outer, rest, _, hfuel => by
    have hne : itemChars depth (next :: items) ≠ [] := by simp [itemChars]
    rw [itemChars, separate_cons depth _ hne] at hfuel ⊢
    simp only [List.length_append, List.length_cons] at hfuel
    rw [List.append_assoc, List.append_assoc]
    exact readItems?_next
      (readValue?_chars depth item fuel _ (by omega) (isDigit_separator depth _))
      (readItems?_itemChars depth (next :: items) fuel outer rest (List.cons_ne_nil _ _) (by omega))

theorem readMembers?_memberChars (depth : Nat) : ∀ (members : List (String × Json))
    (fuel outer : Nat) (rest : List Char), members ≠ [] →
    (separate depth (memberChars depth members)).length < fuel →
    readMembers? fuel (separate depth (memberChars depth members) ++
      (newline outer ++ '\x7d' :: rest)) = some (members, rest)
  | [], _, _, _, hne, _ => absurd rfl hne
  | [(key, value)], fuel + 1, outer, rest, _, hfuel => by
    rw [memberChars, memberChars, separate_singleton] at hfuel ⊢
    simp only [List.length_append] at hfuel
    rw [List.append_assoc]
    exact readMembers?_last (readValue?_chars depth value fuel _ (by omega)
      (isDigit_newline outer _))
  | (key, value) :: next :: members, fuel + 1, outer, rest, _, hfuel => by
    have hne : memberChars depth (next :: members) ≠ [] := by simp [memberChars]
    rw [memberChars, separate_cons depth _ hne] at hfuel ⊢
    simp only [List.length_append, List.length_cons] at hfuel
    rw [List.append_assoc, List.append_assoc _ (chars depth value),
      List.append_assoc (',' :: newline depth)]
    exact readMembers?_next
      (readValue?_chars depth value fuel _ (by omega) (isDigit_separator depth _))
      (readMembers?_memberChars depth (next :: members) fuel outer rest (List.cons_ne_nil _ _)
        (by omega))

end

/-- What is written is read back, with blanks behind it or without. -/
theorem read?_pretty (j : Json) {rest : List Char} (hrest : ∀ c ∈ rest, isSpace c = true) :
    read? (j.pretty.toList ++ rest) = some j := by
  have hdigit : ∀ c ∈ rest.head?, c.isDigit = false := by
    intro c hc
    have hspace := hrest c (List.mem_of_mem_head? hc)
    by_contra hne
    rw [isSpace_eq_false] at hspace
    · cases hspace
    · rintro d hd rfl
      exact hne hd
  have hlength : (chars 0 j).length ≤ (chars 0 j ++ rest).length + 1 := by
    rw [List.length_append]
    omega
  have hblank : skipSpace rest = [] := List.dropWhile_eq_nil_iff.2 hrest
  rw [pretty, String.toList_ofList, read?, readValue?_chars 0 j _ _ hlength hdigit]
  exact if_pos hblank

end SchemaModels.Json
