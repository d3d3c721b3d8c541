import AItelier.Lib.JsonText
import AItelier.Lib.Outcome
import AItelier.Lib.Value
import Mathlib.Data.List.TakeWhile

namespace AItelier.Lib.JsonDoc

open Json (isBlank skip chars quoted escapeChar skip_cons)

/-- What stands inside the brackets of a container, and after its commas, at a depth. -/
structure Layout where
  pad : Nat → List Char
  gap : Nat → List Char
  blank : ∀ n, (∀ c ∈ pad n, isBlank c = true) ∧ ∀ c ∈ gap n, isBlank c = true

/-- The separators `", "` and `": "`. -/
def oneLine : Layout :=
  ⟨fun _ => [], fun _ => [' '], fun _ => ⟨fun _ h => absurd h List.not_mem_nil,
    fun _ h => List.mem_singleton.mp h ▸ rfl⟩⟩

def newline (width depth : Nat) : List Char := '\n' :: List.replicate (width * depth) ' '

theorem newline_blank (width depth : Nat) : ∀ c ∈ newline width depth, isBlank c = true := by
  intro c hc
  rcases List.mem_cons.mp hc with rfl | hc
  · rfl
  · rw [List.eq_of_mem_replicate hc]
    rfl

/-- `indent=width`. -/
def indented (width : Nat) : Layout :=
  ⟨newline width, newline width, fun n => ⟨newline_blank width n, newline_blank width n⟩⟩

/-- The numbers that are no decimal literal. -/
def constants : List (String × String) := [("nan", "NaN"), ("inf", "Infinity"), ("-inf", "-Infinity")]

def floatText (f : PyFloat) : List Char := ((constants.lookup f.text).getD f.text).toList

mutual

/-- The text of a value that stands at a depth. -/
def text (l : Layout) (d : Nat) : Value → List Char
  | .null => ['n', 'u', 'l', 'l']
  | .bool true => ['t', 'r', 'u', 'e']
  | .bool false => ['f', 'a', 'l', 's', 'e']
  | .int i => (toString i).toList
  | .float f => floatText f
  | .str s => quoted s
  | .arr [] => ['[', ']']
  | .arr (v :: items) => '[' :: (l.pad (d + 1) ++ text l (d + 1) v ++ textItems l (d + 1) items ++ l.pad d ++ [']'])
  | .obj [] => ['\x7b', '\x7d']
  | .obj ((name, v) :: fields) =>
    '\x7b' :: (l.pad (d + 1) ++ quoted name ++ [':', ' '] ++ text l (d + 1) v ++
      textFields l (d + 1) fields ++ l.pad d ++
      ['\x7d'])

def textItems (l : Layout) (d : Nat) : List Value → List Char
  | [] => []
  | v :: items => ',' :: (l.gap d ++ text l d v ++ textItems l d items)

def textFields (l : Layout) (d : Nat) : List (String × Value) → List Char
  | [] => []
  | (name, v) :: fields => ',' :: (l.gap d ++ quoted name ++ [':', ' '] ++ text l d v ++ textFields l d fields)

end

def dumps (l : Layout) (v : Value) : List Char := text l 0 v

def numeral (c : Char) : Bool := c.isDigit || c == '-' || c == '+' || c == '.' || c == 'e' || c == 'E'

/-- Digits with no zero before them. -/
def digits (word : List Char) : Bool :=
  word != [] && word.all Char.isDigit && (word.head? != some '0' || word == ['0'])

def unsigned (word : List Char) : List Char := if word.head? = some '-' then word.tail else word

def exponent (word : List Char) : Bool :=
  match word with
  | c :: rest =>
    let rest := if rest.head? = some '+' ∨ rest.head? = some '-' then rest.tail else rest
    (c == 'e' || c == 'E') && rest != [] && rest.all Char.isDigit
  | [] => false

/-- A literal with a fraction or an exponent. -/
def isFloat (word : List Char) : Bool :=
  let whole := (unsigned word).takeWhile Char.isDigit
  let rest := (unsigned word).dropWhile Char.isDigit
  digits whole &&
    (if rest.head? = some '.' then
      let fraction := rest.tail.takeWhile Char.isDigit
      let rest := rest.tail.dropWhile Char.isDigit
      fraction != [] && (rest == [] || exponent rest)
    else exponent rest)

def integer (word : List Char) : Int :=
  if word.head? = some '-' then -(Nat.ofDigitChars 10 word.tail 0) else Nat.ofDigitChars 10 word 0

/-- A number, as `float` reads the literals of floats. -/
def number (float : String → PyFloat) (cs : List Char) : Option (Value × List Char) :=
  let word := cs.takeWhile numeral
  if isFloat word then some (.float (float (String.ofList word)), cs.dropWhile numeral)
  else if digits (unsigned word) then some (.int (integer word), cs.dropWhile numeral)
  else none

def literal (float : String → PyFloat) (cs : List Char) : Option (Value × List Char) :=
  if ['n', 'u', 'l', 'l'].isPrefixOf cs then some (.null, cs.drop 4)
  else if ['t', 'r', 'u', 'e'].isPrefixOf cs then some (.bool true, cs.drop 4)
  else if ['f', 'a', 'l', 's', 'e'].isPrefixOf cs then some (.bool false, cs.drop 5)
  else if ['N', 'a', 'N'].isPrefixOf cs then some (.float (float "nan"), cs.drop 3)
  else if ['I', 'n', 'f', 'i', 'n', 'i', 't', 'y'].isPrefixOf cs then some (.float (float "inf"), cs.drop 8)
  else if ['-', 'I', 'n', 'f', 'i', 'n', 'i', 't', 'y'].isPrefixOf cs then some (.float (float "-inf"), cs.drop 9)
  else number float cs

mutual

def value (float : String → PyFloat) : Nat → List Char → Option (Value × List Char)
  | 0, _ => none
  | n + 1, cs =>
    match skip cs with
    | [] => none
    | c :: rest =>
      if c = '"' then do
        let (body, tail) ← chars n rest
        return (.str (String.ofList body), tail)
      else if c = '[' then
        if (skip rest).head? = some ']' then some (.arr [], (skip rest).tail)
        else do
          let (items, tail) ← values float n rest
          return (.arr items, tail)
      else if c = '\x7b' then
        if (skip rest).head? = some '\x7d' then some (.obj [], (skip rest).tail)
        else do
          let (fields, tail) ← members float n rest
          return (.obj (Dict.update [] fields), tail)
      else literal float (c :: rest)

def values (float : String → PyFloat) : Nat → List Char → Option (List Value × List Char)
  | 0, _ => none
  | n + 1, cs => do
    let (v, rest) ← value float n cs
    match skip rest with
    | [] => none
    | c :: tail =>
      if c = ',' then do
        let (items, tail) ← values float n tail
        return (v :: items, tail)
      else if c = ']' then some ([v], tail)
      else none

def members (float : String → PyFloat) : Nat → List Char → Option (List (String × Value) × List Char)
  | 0, _ => none
  | n + 1, cs => do
    if (skip cs).head? = some '"' then
      let (name, rest) ← chars n (skip cs).tail
      if (skip rest).head? = some ':' then
        let (v, rest) ← value float n (skip rest).tail
        match skip rest with
        | [] => none
        | c :: tail =>
          if c = ',' then do
            let (fields, tail) ← members float n tail
            return ((String.ofList name, v) :: fields, tail)
          else if c = '\x7d' then some ([(String.ofList name, v)], tail)
          else none
      else none
    else none

end

/-- `json.loads`: one value with nothing but blanks around it. -/
def loads (float : String → PyFloat) (cs : List Char) : Option Value := do
  let (v, rest) ← value float (cs.length + 1) cs
  if skip rest = [] then some v else none

/-- A float whose text reads back as itself. -/
def ReadsBack (float : String → PyFloat) (f : PyFloat) : Prop :=
  float f.text = f ∧ ((constants.lookup f.text).isSome = true ∨
    constants.lookup f.text = none ∧ f.text.toList.all numeral = true ∧ isFloat f.text.toList = true)

/-- What may follow a number. -/
def Stops (rest : List Char) : Prop := ∀ c ∈ rest.head?, numeral c = false

theorem stops_nil : Stops [] := fun c h => by simp at h

variable {c : Char} {word rest : List Char} {n : Nat} {fields : Dict} {f : PyFloat} {v : Value} {blanks : List Char}

theorem stops_cons {rest : List Char} (h : numeral c = false) : Stops (c :: rest) := by
  intro d hd
  rw [List.head?_cons, Option.mem_def, Option.some.injEq] at hd
  exact hd ▸ h

theorem blank_numeral (h : isBlank c = true) : numeral c = false := by
  simp only [isBlank, Bool.or_eq_true, decide_eq_true_eq] at h
  rcases h with ((rfl | rfl) | rfl) | rfl <;> decide

/-- Blanks and then what stops. -/
theorem stops_blank {blanks rest : List Char} (hb : ∀ c ∈ blanks, isBlank c = true) (hr : Stops rest) :
    Stops (blanks ++ rest) := by
  cases blanks with
  | nil => exact hr
  | cons c blanks => exact stops_cons (blank_numeral (hb c List.mem_cons_self))

theorem word_split (hw : word.all numeral = true) (hr : Stops rest) :
    (word ++ rest).takeWhile numeral = word ∧ (word ++ rest).dropWhile numeral = rest := by
  have hall : ∀ c ∈ word, numeral c = true := List.all_eq_true.mp hw
  have hrest : rest.takeWhile numeral = [] ∧ rest.dropWhile numeral = rest := by
    cases rest with
    | nil => simp
    | cons c rest => simp [hr c rfl]
  constructor
  · rw [List.takeWhile_append_of_pos hall, hrest.1, List.append_nil]
  · rw [List.dropWhile_append_of_pos hall, hrest.2]

theorem digit_numeral (h : c.isDigit = true) : numeral c = true := by
  simp [numeral, h]

/-- What is read of the digits of a natural number. -/
theorem digits_toDigits (n : Nat) : digits (Nat.toDigits 10 n) = true := by
  have hall : ∀ c ∈ Nat.toDigits 10 n, c.isDigit := fun c hc =>
    Nat.isDigit_of_mem_toDigits (by decide) (by decide) hc
  have hne : Nat.toDigits 10 n ≠ [] := Nat.toDigits_ne_nil
  have hzero : (Nat.toDigits 10 n).head? ≠ some '0' ∨ Nat.toDigits 10 n = ['0'] := by
    by_cases hh : (Nat.toDigits 10 n).head? = some '0'
    · right
      rw [Json.toDigits_head hh]
      exact Nat.toDigits_zero 10
    · exact .inl hh
  simp only [digits, Bool.and_eq_true, bne_iff_ne, ne_eq, hne, not_false_eq_true, Bool.or_eq_true, beq_iff_eq, true_and]
  exact ⟨List.all_eq_true.mpr hall, hzero⟩

theorem head_digits : (Nat.toDigits 10 n).head? ≠ some '-' := by
  intro hh
  have hd : ('-').isDigit = true := Nat.isDigit_of_mem_toDigits (by decide) (by decide) (List.mem_of_head? hh)
  simp at hd

theorem not_float {word : List Char} (h : (unsigned word).all Char.isDigit = true) : isFloat word = false := by
  have hdrop : (unsigned word).dropWhile Char.isDigit = [] := List.dropWhile_eq_nil_iff.mpr (List.all_eq_true.mp h)
  simp [isFloat, hdrop, exponent]

theorem all_digits (n : Nat) : (Nat.toDigits 10 n).all Char.isDigit = true :=
  List.all_eq_true.mpr (fun _ hc => Nat.isDigit_of_mem_toDigits (by decide) (by decide) hc)

/-- A word of a number is read up to where it stops. -/
theorem number_word (float : String → PyFloat) (hw : word.all numeral = true) (hr : Stops rest) :
    number float (word ++ rest) =
      if isFloat word then some (.float (float (String.ofList word)), rest)
      else if digits (unsigned word) then some (.int (integer word), rest)
      else none := by
  obtain ⟨htake, hdrop⟩ := word_split hw hr
  rw [number, htake, hdrop]

/-- The text of an integer: its digits, after a sign where it is negative. -/
theorem toString_word (i : Int) :
    unsigned (toString i).toList = Nat.toDigits 10 i.natAbs ∧ integer (toString i).toList = i ∧
      (toString i).toList.all numeral = true := by
  have hnumeral : ∀ n, (Nat.toDigits 10 n).all numeral = true := fun n =>
    List.all_eq_true.mpr (fun c hc => digit_numeral (List.all_eq_true.mp (all_digits n) c hc))
  rw [Int.toString_eq_repr, Int.repr_eq_if]
  split
  · next h =>
    rw [Nat.toList_repr]
    have habs : i.toNat = i.natAbs := by omega
    refine ⟨?_, ?_, hnumeral _⟩
    · rw [unsigned, if_neg head_digits, habs]
    · rw [integer, if_neg head_digits, Nat.ofDigitChars_ten_toDigits, Int.toNat_of_nonneg h]
  · next h =>
    have hword : ("-" ++ (-i).toNat.repr).toList = '-' :: Nat.toDigits 10 (-i).toNat := by
      rw [String.toList_append, Nat.toList_repr]
      rfl
    have hsign : ('-' :: Nat.toDigits 10 (-i).toNat).head? = some '-' := rfl
    have habs : (-i).toNat = i.natAbs := by omega
    rw [hword]
    refine ⟨?_, ?_, ?_⟩
    · rw [unsigned, if_pos hsign, List.tail_cons, habs]
    · rw [integer, if_pos hsign, List.tail_cons, Nat.ofDigitChars_ten_toDigits]
      omega
    · rw [List.all_cons, hnumeral]
      rfl

theorem number_toString (float : String → PyFloat) (i : Int) {rest : List Char} (hr : Stops rest) :
    number float ((toString i).toList ++ rest) = some (.int i, rest) := by
  obtain ⟨hunsigned, hinteger, hnumeral⟩ := toString_word i
  have hfloat : isFloat (toString i).toList = false := not_float (by rw [hunsigned]; exact all_digits _)
  rw [number_word float hnumeral hr, hfloat, hunsigned, digits_toDigits, hinteger]
  rfl

/-- A word with a digit after its sign is no literal but a number. -/
theorem literal_word (float : String → PyFloat) (hw : word.all numeral = true)
    (hne : unsigned word ≠ []) : literal float (word ++ rest) = number float (word ++ rest) := by
  have hfirst : ∀ c ∈ word, c ≠ 'n' ∧ c ≠ 't' ∧ c ≠ 'f' ∧ c ≠ 'N' ∧ c ≠ 'I' := by
    intro c hc
    have hnumeral := List.all_eq_true.mp hw c hc
    refine ⟨?_, ?_, ?_, ?_, ?_⟩ <;> rintro rfl <;> exact absurd hnumeral (by decide)
  cases word with
  | nil => exact absurd rfl hne
  | cons c word =>
    have hc := hfirst c List.mem_cons_self
    -- after a sign comes a second character of the word
    have hsecond : c = '-' → ∃ b tail, word = b :: tail ∧ b ≠ 'I' := by
      intro hsign
      subst hsign
      cases word with
      | nil => exact absurd rfl hne
      | cons b tail => exact ⟨b, tail, rfl, (hfirst b (by simp)).2.2.2.2⟩
    by_cases hsign : c = '-'
    · obtain ⟨b, tail, rfl, hb⟩ := hsecond hsign
      subst hsign
      simp [literal, List.isPrefixOf, hb.symm]
    · simp [literal, List.isPrefixOf, hc.1.symm, hc.2.1.symm, hc.2.2.1.symm, hc.2.2.2.1.symm, hc.2.2.2.2.symm,
        Ne.symm hsign]

mutual

/-- A value as Python has it: no dictionary has a key twice, and every float is what its text
reads as. -/
def Readable (float : String → PyFloat) : Value → Prop
  | .float f => ReadsBack float f
  | .arr items => ReadableItems float items
  | .obj fields => (fields.map Prod.fst).Nodup ∧ ReadableFields float fields
  | _ => True

def ReadableItems (float : String → PyFloat) : List Value → Prop
  | [] => True
  | v :: rest => Readable float v ∧ ReadableItems float rest

def ReadableFields (float : String → PyFloat) : List (String × Value) → Prop
  | [] => True
  | (_, v) :: rest => Readable float v ∧ ReadableFields float rest

end

theorem readableFields_iff {float : String → PyFloat} :
    ReadableFields float fields ↔ ∀ f ∈ fields, Readable float f.2 := by
  induction fields with
  | nil => simp [ReadableFields]
  | cons f fields ih => simp [ReadableFields, ih]

theorem readable_obj {float : String → PyFloat} :
    Readable float (.obj fields) ↔ (fields.map Prod.fst).Nodup ∧ ∀ f ∈ fields, Readable float f.2 := by
  rw [Readable, readableFields_iff]

/-- A float's text is one of the constants, or a word with a digit after its sign. -/
theorem floatText_cases {float : String → PyFloat} (h : ReadsBack float f) :
    (f.text = "nan" ∧ floatText f = "NaN".toList) ∨ (f.text = "inf" ∧ floatText f = "Infinity".toList) ∨
      (f.text = "-inf" ∧ floatText f = "-Infinity".toList) ∨
      (floatText f = f.text.toList ∧ f.text.toList.all numeral = true ∧ isFloat f.text.toList = true ∧
        unsigned f.text.toList ≠ []) := by
  rcases h.2 with hconst | ⟨hnone, hnumeral, hfloat⟩
  · by_cases hnan : f.text = "nan"
    · exact .inl ⟨hnan, by rw [floatText, hnan]; rfl⟩
    by_cases hinf : f.text = "inf"
    · exact .inr (.inl ⟨hinf, by rw [floatText, hinf]; rfl⟩)
    by_cases hneg : f.text = "-inf"
    · exact .inr (.inr (.inl ⟨hneg, by rw [floatText, hneg]; rfl⟩))
    simp [constants, List.lookup_cons, beq_eq_false_iff_ne.mpr hnan, beq_eq_false_iff_ne.mpr hinf,
      beq_eq_false_iff_ne.mpr hneg] at hconst
  · refine .inr (.inr (.inr ⟨by rw [floatText, hnone]; rfl, hnumeral, hfloat, fun hempty => ?_⟩))
    simp [isFloat, hempty, digits] at hfloat

theorem literal_floatText {float : String → PyFloat} (h : ReadsBack float f) {rest : List Char}
    (hr : Stops rest) : literal float (floatText f ++ rest) = some (.float f, rest) := by
  rcases floatText_cases h with ⟨ht, hf⟩ | ⟨ht, hf⟩ | ⟨ht, hf⟩ | ⟨hf, hnumeral, hfloat, hne⟩
  · have hread : float "nan" = f := ht ▸ h.1
    simp [hf, literal, List.isPrefixOf, hread]
  · have hread : float "inf" = f := ht ▸ h.1
    simp [hf, literal, List.isPrefixOf, hread]
  · have hread : float "-inf" = f := ht ▸ h.1
    simp [hf, literal, List.isPrefixOf, hread]
  · rw [hf, literal_word float hnumeral hne, number_word float hnumeral hr, if_pos hfloat, String.ofList_toList, h.1]

/-- A character that opens neither a string nor a container, nor closes one. -/
def Opens (c : Char) : Prop := isBlank c = false ∧ c ≠ '"' ∧ c ≠ '[' ∧ c ≠ '\x7b' ∧ c ≠ ']'

theorem opens_numeral (h : numeral c = true) : Opens c := by
  refine ⟨?_, ?_, ?_, ?_, ?_⟩
  · cases hb : isBlank c with
    | false => rfl
    | true => exact absurd (blank_numeral hb) (by simp [h])
  all_goals rintro rfl; exact absurd h (by decide)

theorem toString_opens (i : Int) : ∃ c cs, (toString i).toList = c :: cs ∧ Opens c := by
  obtain ⟨hunsigned, -, hnumeral⟩ := toString_word i
  cases hword : (toString i).toList with
  | nil =>
    rw [hword] at hunsigned
    exact absurd hunsigned.symm Nat.toDigits_ne_nil
  | cons c cs =>
    rw [hword] at hnumeral
    exact ⟨c, cs, rfl, opens_numeral (List.all_eq_true.mp hnumeral c List.mem_cons_self)⟩

theorem floatText_opens {float : String → PyFloat} (h : ReadsBack float f) :
    ∃ c cs, floatText f = c :: cs ∧ Opens c := by
  rcases floatText_cases h with ⟨-, hf⟩ | ⟨-, hf⟩ | ⟨-, hf⟩ | ⟨hf, hnumeral, -, hne⟩
  · exact ⟨'N', _, hf, by unfold Opens; decide⟩
  · exact ⟨'I', _, hf, by unfold Opens; decide⟩
  · exact ⟨'-', _, hf, by unfold Opens; decide⟩
  · cases hword : f.text.toList with
    | nil => exact absurd (by rw [hword]; rfl) hne
    | cons c cs =>
      rw [hword] at hf hnumeral
      exact ⟨c, cs, hf, opens_numeral (List.all_eq_true.mp hnumeral c List.mem_cons_self)⟩

theorem text_head {float : String → PyFloat} (l : Layout) (d : Nat) (hv : Readable float v) :
    ∃ c cs, text l d v = c :: cs ∧ isBlank c = false ∧ c ≠ ']' := by
  cases v with
  | null => exact ⟨_, _, rfl, by decide⟩
  | bool b => cases b <;> exact ⟨_, _, rfl, by decide⟩
  | int i =>
    obtain ⟨c, cs, hword, hc⟩ := toString_opens i
    exact ⟨c, cs, hword, hc.1, hc.2.2.2.2⟩
  | float f =>
    obtain ⟨c, cs, hword, hc⟩ := floatText_opens hv
    exact ⟨c, cs, hword, hc.1, hc.2.2.2.2⟩
  | str s => exact ⟨_, _, rfl, by decide⟩
  | arr items => cases items <;> exact ⟨'[', _, rfl, by decide⟩
  | obj fields => cases fields <;> exact ⟨'\x7b', _, rfl, by decide⟩

theorem skip_blank (h : ∀ c ∈ blanks, isBlank c = true) (cs : List Char) :
    skip (blanks ++ cs) = skip cs := List.dropWhile_append_of_pos h

theorem skip_text {float : String → PyFloat} (l : Layout) (d : Nat) (hv : Readable float v)
    (rest : List Char) : skip (text l d v ++ rest) = text l d v ++ rest := by
  obtain ⟨c, cs, he, hb, -⟩ := text_head l d hv
  rw [he, List.cons_append, skip_cons hb]

/-- Blanks before a value are passed over. -/
theorem value_blank (float : String → PyFloat) (n : Nat) (h : ∀ c ∈ blanks, isBlank c = true)
    (cs : List Char) : value float n (blanks ++ cs) = value float n cs := by
  cases n with
  | zero => rfl
  | succ n => rw [value, value, skip_blank h]

/-- A value that is neither a string nor a container is read as a literal. -/
theorem value_literal (float : String → PyFloat) (n : Nat) {word : List Char} (rest : List Char)
    (h : ∃ c cs, word = c :: cs ∧ Opens c) : value float (n + 1) (word ++ rest) = literal float (word ++ rest) := by
  obtain ⟨c, cs, rfl, hb, hq, ha, ho, -⟩ := h
  rw [value, List.cons_append, skip_cons hb]
  simp only [hq, ha, ho, if_false]

theorem member_length (name : String) : name.toList.length + 2 ≤ (quoted name).length := by
  have hlen := Json.escape_length name.toList
  simp only [quoted, List.length_append, List.length_cons, List.length_nil]
  omega

/-- The name and the value of a field are read; what follows decides whether there are more. -/
theorem members_member (float : String → PyFloat) {name : String} {text close tail : List Char}
    (hname : name.toList.length < n)
    (hv : value float n (text ++ (close ++ c :: tail)) = some (v, close ++ c :: tail))
    (hclose : ∀ c ∈ close, isBlank c = true) (hb : isBlank c = false) :
    members float (n + 1) (quoted name ++ ([':', ' '] ++ (text ++ (close ++ c :: tail)))) =
      if c = ',' then (members float n tail).bind (fun r => some ((name, v) :: r.1, r.2))
      else if c = '\x7d' then some ([(name, v)], tail)
      else none := by
  have hquote : skip (quoted name ++ ([':', ' '] ++ (text ++ (close ++ c :: tail)))) =
      quoted name ++ ([':', ' '] ++ (text ++ (close ++ c :: tail))) := skip_cons (by decide)
  have hchars : chars n (name.toList.flatMap escapeChar ++ '"' :: ([':', ' '] ++ (text ++ (close ++ c :: tail)))) =
      some (name.toList, [':', ' '] ++ (text ++ (close ++ c :: tail))) := Json.chars_escape hname
  have hcolon : skip ([':', ' '] ++ (text ++ (close ++ c :: tail))) =
      ':' :: ([' '] ++ (text ++ (close ++ c :: tail))) :=
    skip_cons (by decide)
  have hspace := value_blank float n (show ∀ c ∈ [' '],
      isBlank c = true by simp [isBlank]) (text ++ (close ++ c :: tail))
  have hstop : skip (close ++ c :: tail) = c :: tail := by rw [skip_blank hclose, skip_cons hb]
  have htail : (quoted name ++ ([':', ' '] ++ (text ++ (close ++ c :: tail)))).tail =
      name.toList.flatMap escapeChar ++ '"' :: ([':', ' '] ++ (text ++ (close ++ c :: tail))) := by
    simp [quoted]
  have hhead : (quoted name ++ ([':', ' '] ++ (text ++ (close ++ c :: tail)))).head? = some '"' := rfl
  rw [members, hquote, if_pos hhead, htail, hchars]
  simp only [Option.bind_eq_bind, Option.bind_some, hcolon, List.head?_cons, if_true, List.tail_cons, hspace, hv, hstop,
    String.ofList_toList]
  rfl

theorem members_blank (float : String → PyFloat) (n : Nat) (h : ∀ c ∈ blanks, isBlank c = true)
    (cs : List Char) : members float n (blanks ++ cs) = members float n cs := by
  cases n with
  | zero => rfl
  | succ n => rw [members, members, skip_blank h]

theorem update_nodup (h : (fields.map Prod.fst).Nodup) : Dict.update [] fields = fields := by
  have hgen : ∀ (fields d : Dict), ((d ++ fields).map Prod.fst).Nodup → Dict.update d fields = d ++ fields := by
    intro fields
    induction fields with
    | nil => simp [Dict.update]
    | cons f fields ih =>
      intro d hd
      have hnew : ∀ g ∈ d, g.1 ≠ f.1 := by
        intro g hg heq
        rw [List.map_append, List.map_cons, List.nodup_append] at hd
        exact hd.2.2 g.1 (List.mem_map_of_mem hg) f.1 List.mem_cons_self heq
      have hput : Dict.put d f.1 f.2 = d ++ [f] := by
        clear hd
        induction d with
        | nil => rfl
        | cons g d ihd =>
          have hne : (g.1 == f.1) = false := beq_eq_false_iff_ne.mpr (hnew g List.mem_cons_self)
          rw [Dict.put, hne, ihd (fun x hx => hnew x (List.mem_cons_of_mem g hx))]
          rfl
      have hstep : Dict.update d (f :: fields) = Dict.update (Dict.put d f.1 f.2) fields := rfl
      rw [hstep, hput, ih (d ++ [f]) (by simpa using hd), List.append_assoc]
      rfl
  simpa using hgen fields [] (by simpa using h)

variable {float : String → PyFloat}

theorem stops_pad (l : Layout) (n : Nat) (hc : numeral c = false) (rest : List Char) :
    Stops (l.pad n ++ c :: rest) := stops_blank (l.blank n).1 (stops_cons hc)

theorem stops_items (l : Layout) (d : Nat) (items : List Value) (rest : List Char) :
    Stops (textItems l (d + 1) items ++ (l.pad d ++ ']' :: rest)) := by
  cases items with
  | nil => exact stops_pad l d (by decide) rest
  | cons v items => exact stops_cons (by decide)

theorem stops_fields (l : Layout) (d : Nat) (fields : Dict) (rest : List Char) :
    Stops (textFields l (d + 1) fields ++ (l.pad d ++ '\x7d' :: rest)) := by
  cases fields with
  | nil => exact stops_pad l d (by decide) rest
  | cons f fields => exact stops_cons (by decide)

mutual

/-- The text of a value is read as the value, however it is laid out. -/
theorem value_text (l : Layout) : ∀ (v : Value) (n d : Nat) (rest : List Char), Readable float v →
    (text l d v).length ≤ n → Stops rest → value float n (text l d v ++ rest) = some (v, rest)
  | v, 0, d, rest, hv, hn, _ => by
    obtain ⟨c, cs, he, _⟩ := text_head l d hv
    simp [he] at hn
  | .null, n + 1, d, rest, _, _, _ => by simp [text, value, skip, isBlank, literal]
  | .bool true, n + 1, d, rest, _, _, _ => by simp [text, value, skip, isBlank, literal]
  | .bool false, n + 1, d, rest, _, _, _ => by simp [text, value, skip, isBlank, literal]
  | .int i, n + 1, d, rest, _, _, hr => by
    obtain ⟨hunsigned, -, hnumeral⟩ := toString_word i
    have hne : unsigned (toString i).toList ≠ [] := by
      rw [hunsigned]
      exact Nat.toDigits_ne_nil
    rw [text, value_literal float n rest (toString_opens i), literal_word float hnumeral hne,
      number_toString float i hr]
  | .float f, n + 1, d, rest, hv, _, hr => by
    rw [text, value_literal float n rest (floatText_opens hv), literal_floatText hv hr]
  | .str s, n + 1, d, rest, _, hn, _ => by
    have hlen := Json.escape_length s.toList
    simp only [text, quoted, List.length_cons, List.length_append, List.length_nil] at hn
    rw [value, skip_text l d (show Readable float (.str s) from trivial)]
    simp [text, quoted, Json.chars_escape (show s.toList.length < n by omega)]
  | .arr [], n + 1, d, rest, _, _, _ => by simp [text, value, skip, isBlank]
  | .arr (v :: items), n + 1, d, rest, hv, hn, _ => by
    obtain ⟨c, cs, he, hb, hc⟩ := text_head l (d + 1) hv.1
    have hlen : (text l (d + 1) v).length + (textItems l (d + 1) items).length < n := by
      simp only [text, List.length_cons, List.length_append, List.length_nil] at hn
      omega
    have hitems := values_text l v items n d (l.pad (d + 1)) rest (l.blank (d + 1)).1 hv hlen
    have hopen : text l d (.arr (v :: items)) ++ rest =
        '[' :: (l.pad (d + 1) ++ (text l (d + 1) v ++ (textItems l (d + 1) items ++ (l.pad d ++ ']' :: rest)))) := by
      simp [text]
    have hhead : (skip (l.pad (d + 1) ++ (text l (d + 1) v ++
        (textItems l (d + 1) items ++ (l.pad d ++ ']' :: rest))))).head?
        ≠ some ']' := by
      rw [skip_blank (l.blank (d + 1)).1, skip_text l (d + 1) hv.1, he]
      simpa using hc
    rw [hopen, value, skip_cons (by decide)]
    simp [hhead, hitems]
  | .obj [], n + 1, d, rest, _, _, _ => by simp [text, value, skip, isBlank]
  | .obj ((name, v) :: fields), n + 1, d, rest, hv, hn, _ => by
    obtain ⟨hkeys, hv⟩ := hv
    have hlen : (quoted name).length + (text l (d + 1) v).length + (textFields l (d + 1) fields).length < n := by
      simp only [text, List.length_cons, List.length_append, List.length_nil] at hn
      omega
    have hfields := members_text l name v fields n d (l.pad (d + 1)) rest (l.blank (d + 1)).1 hv hlen
    have hopen : text l d (.obj ((name, v) :: fields)) ++ rest = '\x7b' :: (l.pad (d + 1) ++ (quoted name ++
        ([':', ' '] ++ (text l (d + 1) v ++ (textFields l (d + 1) fields ++ (l.pad d ++ '\x7d' :: rest)))))) := by
      simp [text]
    have hhead : (skip (l.pad (d + 1) ++ (quoted name ++ ([':', ' '] ++ (text l (d + 1) v ++
        (textFields l (d + 1) fields ++ (l.pad d ++ '\x7d' :: rest))))))).head? ≠ some '\x7d' := by
      rw [skip_blank (l.blank (d + 1)).1, quoted, List.cons_append, skip_cons (by decide)]
      simp
    have hbrace : ('\x7b' : Char) ≠ '"' ∧ ('\x7b' : Char) ≠ '[' := by decide
    rw [hopen, value, skip_cons (by decide)]
    simp only [hbrace.1, hbrace.2, if_false, if_true, if_neg hhead, hfields, Option.bind_eq_bind, Option.bind_some,
      update_nodup hkeys]
    rfl

theorem values_text (l : Layout) : ∀ (v : Value) (items : List Value) (n d : Nat) (blanks rest : List Char),
    (∀ c ∈ blanks, isBlank c = true) → ReadableItems float (v :: items) →
    (text l (d + 1) v).length + (textItems l (d + 1) items).length < n →
    values float n (blanks ++ (text l (d + 1) v ++ (textItems l (d + 1) items ++ (l.pad d ++ ']' :: rest)))) =
      some (v :: items, rest)
  | _, _, 0, _, _, _, _, _, hn => by simp at hn
  | v, [], n + 1, d, blanks, rest, hb, hv, hn => by
    have hv' := value_text l v n (d + 1) (l.pad d ++ ']' :: rest) hv.1 (by omega) (stops_pad l d (by decide) rest)
    have hskip : skip (l.pad d ++ ']' :: rest) = ']' :: rest := by rw [skip_blank (l.blank d).1, skip_cons (by decide)]
    rw [textItems, List.nil_append, values, value_blank float n hb]
    simp [hv', hskip]
  | v, w :: items, n + 1, d, blanks, rest, hb, hv, hn => by
    simp only [textItems, List.length_cons, List.length_append] at hn
    have hlen : (text l (d + 1) w).length + (textItems l (d + 1) items).length < n := by omega
    have hv' := value_text l v n (d + 1) (textItems l (d + 1) (w :: items) ++ (l.pad d ++ ']' :: rest)) hv.1 (by omega)
      (stops_items l d (w :: items) rest)
    have hitems := values_text l w items n d (l.gap (d + 1)) rest (l.blank (d + 1)).2 hv.2 hlen
    have hcomma : textItems l (d + 1) (w :: items) ++ (l.pad d ++ ']' :: rest) =
        ',' :: (l.gap (d + 1) ++ (text l (d + 1) w ++ (textItems l (d + 1) items ++ (l.pad d ++ ']' :: rest)))) := by
      simp [textItems]
    rw [hcomma] at hv' ⊢
    rw [values, value_blank float n hb]
    simp [hv', skip_cons, isBlank, hitems]

theorem members_text (l : Layout) : ∀ (name : String) (v : Value) (fields : Dict) (n d : Nat) (blanks rest : List Char),
    (∀ c ∈ blanks, isBlank c = true) → ReadableFields float ((name, v) :: fields) →
    (quoted name).length + (text l (d + 1) v).length + (textFields l (d + 1) fields).length < n →
    members float n (blanks ++ (quoted name ++ ([':', ' '] ++ (text l (d + 1) v ++ (textFields l (d + 1) fields ++
      (l.pad d ++ '\x7d' :: rest)))))) = some ((name, v) :: fields, rest)
  | _, _, _, 0, _, _, _, _, _, hn => by simp at hn
  | name, v, [], n + 1, d, blanks, rest, hb, hv, hn => by
    have hlen := member_length name
    have hv' := value_text l v n (d + 1) (l.pad d ++ '\x7d' :: rest) hv.1 (by omega) (stops_pad l d (by decide) rest)
    rw [textFields, List.nil_append, members_blank float (n + 1) hb,
      members_member float (by omega) hv' (l.blank d).1 (by decide)]
    simp
  | name, v, (other, w) :: fields, n + 1, d, blanks, rest, hb, hv, hn => by
    have hlen := member_length name
    simp only [textFields, List.length_cons, List.length_append, List.length_nil] at hn
    have hrest : (quoted other).length + (text l (d + 1) w).length + (textFields l (d + 1) fields).length < n := by
      omega
    have hcomma : textFields l (d + 1) ((other, w) :: fields) ++ (l.pad d ++ '\x7d' :: rest) =
        [] ++ ',' :: (l.gap (d + 1) ++ (quoted other ++
          ([':', ' '] ++ (text l (d + 1) w ++ (textFields l (d + 1) fields ++
          (l.pad d ++ '\x7d' :: rest)))))) := by
      simp [textFields]
    have hv' := value_text l v n (d + 1) (textFields l (d + 1) ((other, w) :: fields) ++
        (l.pad d ++ '\x7d' :: rest)) hv.1
      (by omega) (stops_fields l d ((other, w) :: fields) rest)
    have hfields := members_text l other w fields n d (l.gap (d + 1)) rest (l.blank (d + 1)).2 hv.2 hrest
    rw [hcomma] at hv' ⊢
    rw [members_blank float (n + 1) hb, members_member float (by omega) hv' (by simp) (by decide), if_pos rfl, hfields]
    rfl

end

/-- What is written is read back, also with blanks after it. -/
theorem loads_dumps (l : Layout) (hv : Readable float v)
    (hb : ∀ c ∈ blanks, isBlank c = true) : loads float (dumps l v ++ blanks) = some v := by
  have hstop : Stops blanks := by
    have h := stops_blank hb stops_nil
    rwa [List.append_nil] at h
  have hlen : (text l 0 v).length ≤ (text l 0 v ++ blanks).length + 1 := by
    rw [List.length_append]
    omega
  have hskip : skip blanks = [] := by
    have h := skip_blank hb []
    rwa [List.append_nil] at h
  rw [loads, dumps, value_text l v _ 0 blanks hv hlen hstop]
  simp [hskip]

mutual

/-- Every character of every text and key in a value. -/
def Characters (q : Char → Prop) : Value → Prop
  | .str s => ∀ c ∈ s.toList, q c
  | .arr items => CharactersItems q items
  | .obj fields => CharactersFields q fields
  | _ => True

def CharactersItems (q : Char → Prop) : List Value → Prop
  | [] => True
  | v :: rest => Characters q v ∧ CharactersItems q rest

def CharactersFields (q : Char → Prop) : List (String × Value) → Prop
  | [] => True
  | (name, v) :: rest => (∀ c ∈ name.toList, q c) ∧ Characters q v ∧ CharactersFields q rest

end

theorem charactersFields_iff {q : Char → Prop} :
    CharactersFields q fields ↔ ∀ f ∈ fields, (∀ c ∈ f.1.toList, q c) ∧ Characters q f.2 := by
  induction fields with
  | nil => simp [CharactersFields]
  | cons f fields ih => simp [CharactersFields, ih, and_assoc]

/-- A printable character of ASCII. -/
def Printable (c : Char) : Prop := 32 ≤ c.toNat ∧ c.toNat < 127

instance (c : Char) : Decidable (Printable c) := inferInstanceAs (Decidable (_ ∧ _))

theorem numeral_printable (h : numeral c = true) : Printable c := by
  simp only [numeral, Bool.or_eq_true, beq_iff_eq] at h
  rcases h with (((((h | rfl) | rfl) | rfl) | rfl) | rfl)
  · simp only [Char.isDigit, Bool.and_eq_true, decide_eq_true_eq] at h
    have hlow : 48 ≤ c.toNat := h.1
    have hhigh : c.toNat ≤ 57 := h.2
    exact ⟨by omega, by omega⟩
  all_goals decide

theorem hexDigit_printable (h : n < 16) : Printable (Json.hexDigit n) := by
  have hall : ∀ m < 16, Printable (Json.hexDigit m) := by decide
  exact hall n h

theorem printable_pair {x y : Char} (hy : Printable y) (h : x ∈ ['\\', y]) : Printable x := by
  rcases List.mem_cons.mp h with rfl | h
  · decide
  · exact List.mem_singleton.mp h ▸ hy

/-- An escaped character is printable, one that stays is no control. -/
theorem escapeChar_mem {c x : Char} (h : x ∈ escapeChar c) : Printable x ∨ (x = c ∧ 32 ≤ c.toNat) := by
  unfold escapeChar at h
  split at h
  · exact .inl (printable_pair (by decide) h)
  split at h
  · exact .inl (printable_pair (by decide) h)
  split at h
  · exact .inl (printable_pair (by decide) h)
  split at h
  · exact .inl (printable_pair (by decide) h)
  split at h
  · exact .inl (printable_pair (by decide) h)
  split at h
  · exact .inl (printable_pair (by decide) h)
  split at h
  · exact .inl (printable_pair (by decide) h)
  split at h
  · next hlow =>
    left
    simp only [List.mem_cons, List.not_mem_nil, or_false] at h
    rcases h with rfl | rfl | rfl | rfl | rfl | rfl
    · decide
    · decide
    · decide
    · decide
    · exact hexDigit_printable (by omega)
    · exact hexDigit_printable (by omega)
  · next hhigh =>
    rw [List.mem_singleton] at h
    exact .inr ⟨h, by omega⟩

theorem quoted_mem {q : Char → Prop} (hq : ∀ c, Printable c → q c) {s : String}
    (hs : ∀ c ∈ s.toList, 32 ≤ c.toNat → q c) :
    ∀ c ∈ quoted s, q c := by
  intro c hc
  rcases List.mem_cons.mp hc with rfl | hc
  · exact hq _ (by decide)
  rcases List.mem_append.mp hc with hc | hc
  · obtain ⟨d, hd, hc⟩ := List.mem_flatMap.mp hc
    rcases escapeChar_mem hc with hp | ⟨rfl, hlow⟩
    · exact hq c hp
    · exact hs c hd hlow
  · rw [List.mem_singleton.mp hc]
    exact hq _ (by decide)

theorem floatText_printable (h : ReadsBack float f) : ∀ c ∈ floatText f, Printable c := by
  rcases floatText_cases h with ⟨-, hf⟩ | ⟨-, hf⟩ | ⟨-, hf⟩ | ⟨hf, hnumeral, -, -⟩
  · rw [hf]
    exact forall_of_all (by decide)
  · rw [hf]
    exact forall_of_all (by decide)
  · rw [hf]
    exact forall_of_all (by decide)
  · rw [hf]
    exact fun c hc => numeral_printable (List.all_eq_true.mp hnumeral c hc)

mutual

/-- On one line stand printable characters and those of the texts that are no controls. -/
theorem oneLine_mem {q : Char → Prop} (hq : ∀ c, Printable c → q c) : ∀ (v : Value) (d : Nat), Readable float v →
    Characters (fun c => 32 ≤ c.toNat → q c) v → ∀ c ∈ text oneLine d v, q c
  | .null, d, _, _ => fun c hc => hq c (forall_of_all (l := ['n', 'u', 'l', 'l']) (by decide) c hc)
  | .bool true, d, _, _ => fun c hc => hq c (forall_of_all (l := ['t', 'r', 'u', 'e']) (by decide) c hc)
  | .bool false, d, _, _ => fun c hc => hq c (forall_of_all (l := ['f', 'a', 'l', 's', 'e']) (by decide) c hc)
  | .int i, d, _, _ => fun c hc => hq c (numeral_printable (List.all_eq_true.mp (toString_word i).2.2 c hc))
  | .float f, d, hv, _ => fun c hc => hq c (floatText_printable hv c hc)
  | .str s, d, _, hs => quoted_mem hq hs
  | .arr [], d, _, _ => fun c hc => hq c (forall_of_all (l := ['[', ']']) (by decide) c hc)
  | .arr (v :: items), d, hv, hs => by
    have hfirst := oneLine_mem hq v (d + 1) hv.1 hs.1
    have hrest := oneLine_items hq items (d + 1) hv.2 hs.2
    intro c hc
    simp only [text, oneLine, List.nil_append, List.append_nil, List.mem_cons, List.mem_append, List.not_mem_nil,
      or_false] at hc
    rcases hc with rfl | (hc | hc) | rfl
    · exact hq _ (by decide)
    · exact hfirst c hc
    · exact hrest c hc
    · exact hq _ (by decide)
  | .obj [], d, _, _ => fun c hc => hq c (forall_of_all (l := ['\x7b', '\x7d']) (by decide) c hc)
  | .obj ((name, v) :: fields), d, hv, hs => by
    have hname := quoted_mem hq hs.1
    have hfirst := oneLine_mem hq v (d + 1) hv.2.1 hs.2.1
    have hrest := oneLine_fields hq fields (d + 1) hv.2.2 hs.2.2
    intro c hc
    simp only [text, oneLine, List.nil_append, List.append_nil, List.mem_cons, List.mem_append, List.not_mem_nil,
      or_false] at hc
    rcases hc with rfl | (((hc | rfl | rfl) | hc) | hc) | rfl
    · exact hq _ (by decide)
    · exact hname c hc
    · exact hq _ (by decide)
    · exact hq _ (by decide)
    · exact hfirst c hc
    · exact hrest c hc
    · exact hq _ (by decide)

theorem oneLine_items {q : Char → Prop} (hq : ∀ c, Printable c → q c) : ∀ (items : List Value) (d : Nat),
    ReadableItems float items → CharactersItems (fun c => 32 ≤ c.toNat → q c) items →
    ∀ c ∈ textItems oneLine d items, q c
  | [], _, _, _ => fun c hc => absurd hc List.not_mem_nil
  | v :: items, d, hv, hs => by
    have hfirst := oneLine_mem hq v d hv.1 hs.1
    have hrest := oneLine_items hq items d hv.2 hs.2
    intro c hc
    simp only [textItems, oneLine, List.mem_cons, List.mem_append, List.not_mem_nil, or_false] at hc
    rcases hc with rfl | (rfl | hc) | hc
    · exact hq _ (by decide)
    · exact hq _ (by decide)
    · exact hfirst c hc
    · exact hrest c hc

theorem oneLine_fields {q : Char → Prop} (hq : ∀ c, Printable c → q c) : ∀ (fields : Dict) (d : Nat),
    ReadableFields float fields → CharactersFields (fun c => 32 ≤ c.toNat → q c) fields →
    ∀ c ∈ textFields oneLine d fields, q c
  | [], _, _, _ => fun c hc => absurd hc List.not_mem_nil
  | (name, v) :: fields, d, hv, hs => by
    have hname := quoted_mem hq hs.1
    have hfirst := oneLine_mem hq v d hv.1 hs.2.1
    have hrest := oneLine_fields hq fields d hv.2 hs.2.2
    intro c hc
    simp only [textFields, oneLine, List.mem_cons, List.mem_append, List.not_mem_nil, or_false] at hc
    rcases hc with rfl | (((rfl | hc) | rfl | rfl) | hc) | hc
    · exact hq _ (by decide)
    · exact hq _ (by decide)
    · exact hname c hc
    · exact hq _ (by decide)
    · exact hq _ (by decide)
    · exact hfirst c hc
    · exact hrest c hc

end

end AItelier.Lib.JsonDoc
