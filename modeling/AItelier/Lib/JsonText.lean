import AItelier.Lib.Json

namespace AItelier.Lib.Json

def isBlank (c : Char) : Bool :=
  c = ' ' || c = '\n' || c = '\r' || c = '\t'

def skip (cs : List Char) : List Char :=
  cs.dropWhile isBlank

def hexValue (c : Char) : Option Nat :=
  if '0' ≤ c ∧ c ≤ '9' then some (c.toNat - 48)
  else if 'a' ≤ c ∧ c ≤ 'f' then some (c.toNat - 87)
  else if 'A' ≤ c ∧ c ≤ 'F' then some (c.toNat - 55)
  else none

def shortEscapes : List (Char × Char) :=
  [('"', '"'), ('\\', '\\'), ('/', '/'), ('b', Char.ofNat 8), ('f', Char.ofNat 12), ('n', '\n'), ('r', '\r'),
    ('t', '\t')]

/-- `\uXXXX`, outside the surrogates: no text here is made of those. -/
def unicodeEscape : List Char → Option (Char × List Char)
  | a :: b :: c :: d :: rest => do
    let code := (← hexValue a) * 4096 + (← hexValue b) * 256 + (← hexValue c) * 16 + (← hexValue d)
    if code.isValidChar then some (Char.ofNat code, rest) else none
  | _ => none

/-- One character of a string's text, escaped or plain. -/
def unit : List Char → Option (Char × List Char)
  | [] => none
  | c :: rest =>
    if c = '\\' then
      match rest with
      | [] => none
      | e :: tail => if e = 'u' then unicodeEscape tail else (shortEscapes.lookup e).map (fun c => (c, tail))
    else if c.toNat < 32 then none
    else some (c, rest)

/-- A string's text up to its closing quote. -/
def chars : Nat → List Char → Option (List Char × List Char)
  | 0, _ => none
  | n + 1, cs =>
    if cs.head? = some '"' then some ([], cs.tail)
    else do
      let (c, rest) ← unit cs
      let (body, tail) ← chars n rest
      return (c :: body, tail)

/-- An integer; fractions and exponents are not values of the store. -/
def number (cs : List Char) : Option (Json × List Char) :=
  let negative := cs.head? = some '-'
  let body := if negative then cs.tail else cs
  let digits := body.takeWhile Char.isDigit
  let tail := body.dropWhile Char.isDigit
  if digits = [] ∨ (digits.head? = some '0' ∧ digits ≠ ['0']) ∨
      tail.head? = some '.' ∨ tail.head? = some 'e' ∨ tail.head? = some 'E' then none
  else
    let magnitude := Nat.ofDigitChars 10 digits 0
    some (.int (if negative then -magnitude else magnitude), tail)

def literal (cs : List Char) : Option (Json × List Char) :=
  if ['n', 'u', 'l', 'l'].isPrefixOf cs then some (.null, cs.drop 4)
  else if ['t', 'r', 'u', 'e'].isPrefixOf cs then some (.bool true, cs.drop 4)
  else if ['f', 'a', 'l', 's', 'e'].isPrefixOf cs then some (.bool false, cs.drop 5)
  else number cs

/-- A dictionary from its pairs in order: the last value of a key stands, where
the key first stood. -/
def dict (pairs : List (String × Json)) : List (String × Json) :=
  pairs.foldl (fun d p =>
    if d.any (fun q => q.1 = p.1) then d.map (fun q => if q.1 = p.1 then p else q) else d ++ [p]) []

mutual

def value : Nat → List Char → Option (Json × List Char)
  | 0, _ => none
  | n + 1, cs =>
    match skip cs with
    | [] => none
    | c :: rest =>
      if c = '"' then do
        let (body, tail) ← chars n rest
        return (.str (String.ofList body), tail)
      else if c = '[' then
        if (skip rest).head? = some ']' then some (.arr [], (skip rest).tail)
        else do
          let (items, tail) ← values n rest
          return (.arr items, tail)
      else if c = '\x7b' then
        if (skip rest).head? = some '\x7d' then some (.obj [], (skip rest).tail)
        else do
          let (pairs, tail) ← members n rest
          return (.obj (dict pairs), tail)
      else literal (c :: rest)

def values : Nat → List Char → Option (List Json × List Char)
  | 0, _ => none
  | n + 1, cs => do
    let (j, rest) ← value n cs
    match skip rest with
    | [] => none
    | c :: tail =>
      if c = ',' then do
        let (js, tail) ← values n tail
        return (j :: js, tail)
      else if c = ']' then some ([j], tail)
      else none

def members : Nat → List Char → Option (List (String × Json) × List Char)
  | 0, _ => none
  | n + 1, cs => do
    if (skip cs).head? = some '"' then
      let (name, rest) ← chars n (skip cs).tail
      if (skip rest).head? = some ':' then
        let (j, rest) ← value n (skip rest).tail
        match skip rest with
        | [] => none
        | c :: tail =>
          if c = ',' then do
            let (more, tail) ← members n tail
            return ((String.ofList name, j) :: more, tail)
          else if c = '\x7d' then some ([(String.ofList name, j)], tail)
          else none
      else none
    else none

end

/-- `json.loads`: one value with nothing but blanks around it. -/
def loads (s : String) : Option Json := do
  let (j, rest) ← value (s.toList.length + 1) s.toList
  if skip rest = [] then some j else none

variable {c : Char} {n : Nat} {rest : List Char} {j : Json}

theorem skip_cons {cs : List Char} (h : isBlank c = false) : skip (c :: cs) = c :: cs := by
  simp [skip, h]

theorem hexValue_hexDigit (h : n < 16) : hexValue (hexDigit n) = some n := by
  have hall : ∀ m < 16, hexValue (hexDigit m) = some m := by decide
  exact hall n h

theorem unit_escape (c : Char) (rest : List Char) : unit (escapeChar c ++ rest) = some (c, rest) := by
  unfold escapeChar
  split
  · subst c
    rfl
  split
  · subst c
    rfl
  split
  · subst c
    rfl
  split
  · subst c
    rfl
  split
  · subst c
    rfl
  split
  · rename_i h
    have hc : c = Char.ofNat 8 := by rw [← h, Char.ofNat_toNat]
    subst hc
    rfl
  split
  · rename_i h
    have hc : c = Char.ofNat 12 := by rw [← h, Char.ofNat_toNat]
    subst hc
    rfl
  split
  · rename_i hlow
    have hz : hexValue '0' = some 0 := by decide
    have hhigh := hexValue_hexDigit (show c.toNat / 16 < 16 by omega)
    have hunit := hexValue_hexDigit (show c.toNat % 16 < 16 by omega)
    have hcode : c.toNat / 16 * 16 + c.toNat % 16 = c.toNat := by omega
    simp [unit, unicodeEscape, hz, hhigh, hunit, hcode, Char.ofNat_toNat]
    omega
  · rename_i hq hb _ _ _ _ _ hlow
    simp [unit, hb, hlow]

theorem escape_head (c : Char) (rest : List Char) : (escapeChar c ++ rest).head? ≠ some '"' := by
  unfold escapeChar
  repeat' split
  all_goals simp_all

theorem escape_length (cs : List Char) : cs.length ≤ (cs.flatMap escapeChar).length := by
  induction cs with
  | nil => simp
  | cons c cs ih =>
    have hc : 1 ≤ (escapeChar c).length := by
      unfold escapeChar
      repeat' split
      all_goals simp
    simp only [List.flatMap_cons, List.length_append, List.length_cons]
    omega

theorem chars_escape {cs rest : List Char} (h : cs.length < n) :
    chars n (cs.flatMap escapeChar ++ '"' :: rest) = some (cs, rest) := by
  induction cs generalizing n with
  | nil =>
    cases n with
    | zero => simp at h
    | succ n => simp [chars]
  | cons c cs ih =>
    cases n with
    | zero => simp at h
    | succ n =>
      have hlen : cs.length < n := by simpa using h
      rw [List.flatMap_cons, List.append_assoc, chars, if_neg (escape_head c _), unit_escape]
      simp [ih hlen]

theorem toDigits_head (h : (Nat.toDigits 10 n).head? = some '0') : n = 0 := by
  induction n using Nat.strong_induction_on with
  | _ n ih =>
    by_cases hn : n < 10
    · have hall : ∀ m < 10, (Nat.toDigits 10 m).head? = some '0' → m = 0 := by decide
      exact hall n hn h
    · rw [Nat.toDigits_of_base_le (by decide) (by omega)] at h
      have hne : Nat.toDigits 10 (n / 10) ≠ [] := Nat.toDigits_ne_nil
      rw [List.head?_append_of_ne_nil _ hne] at h
      have := ih (n / 10) (by omega) h
      omega

/-- What may follow a value inside a canonical text, or nothing. -/
def Stops (rest : List Char) : Prop :=
  ∀ c ∈ rest.head?, c = ',' ∨ c = ']' ∨ c = '\x7d'

theorem Stops.cons (h : c = ',' ∨ c = ']' ∨ c = '\x7d') : Stops (c :: rest) := by
  intro d hd
  simp only [List.head?_cons, Option.mem_def, Option.some.injEq] at hd
  exact hd ▸ h

theorem span_digits {digits rest : List Char} (hd : ∀ c ∈ digits, c.isDigit) (hr : Stops rest) :
    (digits ++ rest).takeWhile Char.isDigit = digits ∧ (digits ++ rest).dropWhile Char.isDigit = rest := by
  have hrest : rest.takeWhile Char.isDigit = [] ∧ rest.dropWhile Char.isDigit = rest := by
    cases rest with
    | nil => simp
    | cons c rest =>
      have hc : c.isDigit = false := by
        obtain rfl | rfl | rfl := hr c rfl <;> decide
      simp [hc]
  constructor
  · rw [List.takeWhile_append_of_pos hd, hrest.1, List.append_nil]
  · rw [List.dropWhile_append_of_pos hd, hrest.2]

theorem number_digits (n : Nat) (hr : Stops rest) :
    number (Nat.toDigits 10 n ++ rest) = some (.int n, rest) ∧
      number ('-' :: (Nat.toDigits 10 n ++ rest)) = some (.int (-n), rest) := by
  have hall : ∀ c ∈ Nat.toDigits 10 n, c.isDigit := fun c hc =>
    Nat.isDigit_of_mem_toDigits (by decide) (by decide) hc
  have hne : Nat.toDigits 10 n ≠ [] := Nat.toDigits_ne_nil
  have hzero : ¬ ((Nat.toDigits 10 n).head? = some '0' ∧ Nat.toDigits 10 n ≠ ['0']) := by
    rintro ⟨hh, hn⟩
    rw [toDigits_head hh] at hn
    exact hn (Nat.toDigits_zero 10)
  have hsign : (Nat.toDigits 10 n ++ rest).head? ≠ some '-' := by
    rw [List.head?_append_of_ne_nil _ hne]
    intro hh
    have hd := hall '-' (List.mem_of_head? hh)
    simp at hd
  have hstop : ¬ (rest.head? = some '.' ∨ rest.head? = some 'e' ∨ rest.head? = some 'E') := by
    rintro (hh | hh | hh) <;> simpa using hr _ hh
  obtain ⟨htake, hdrop⟩ := span_digits hall hr
  constructor
  · simp only [number, hsign, if_false, htake, hdrop, Nat.ofDigitChars_ten_toDigits]
    rw [if_neg (by simp only [hne, false_or]; exact not_or.mpr ⟨hzero, hstop⟩)]
  · simp only [number, List.head?_cons, if_true, List.tail_cons, htake, hdrop, Nat.ofDigitChars_ten_toDigits]
    rw [if_neg (by simp only [hne, false_or]; exact not_or.mpr ⟨hzero, hstop⟩)]

theorem number_toString (i : Int) (hr : Stops rest) :
    number ((toString i).toList ++ rest) = some (.int i, rest) := by
  rw [Int.toString_eq_repr, Int.repr_eq_if]
  split
  · rename_i h
    rw [Nat.toList_repr, (number_digits _ hr).1, Int.toNat_of_nonneg h]
  · rename_i h
    rw [String.toList_append, Nat.toList_repr]
    have hneg := (number_digits (-i).toNat hr).2
    rw [Int.toNat_of_nonneg (by omega), Int.neg_neg] at hneg
    exact hneg

/-- The first character of an integer's text opens no other value. -/
theorem toString_head (i : Int) : ∃ c cs, (toString i).toList = c :: cs ∧ (c = '-' ∨ c.isDigit) := by
  rw [Int.toString_eq_repr, Int.repr_eq_if]
  split
  · rw [Nat.toList_repr]
    obtain ⟨c, cs, he⟩ := List.exists_cons_of_ne_nil (Nat.toDigits_ne_nil (n := i.toNat) (b := 10))
    have hmem : c ∈ Nat.toDigits 10 i.toNat := by
      rw [he]
      exact List.mem_cons_self
    exact ⟨c, cs, he, .inr (Nat.isDigit_of_mem_toDigits (by decide) (by decide) hmem)⟩
  · rw [String.toList_append]
    exact ⟨'-', _, rfl, .inl rfl⟩

theorem literal_toString (i : Int) (hr : Stops rest) :
    literal ((toString i).toList ++ rest) = some (.int i, rest) := by
  obtain ⟨c, cs, he, hc⟩ := toString_head i
  have hne : c ≠ 'n' ∧ c ≠ 't' ∧ c ≠ 'f' := by
    refine ⟨?_, ?_, ?_⟩ <;> rintro rfl <;> simp at hc
  have hnumber := number_toString i hr
  rw [he] at hnumber ⊢
  simpa [literal, hne.1.symm, hne.2.1.symm, hne.2.2.symm] using hnumber

mutual

/-- Every object's keys are in order, none twice. -/
def Ordered : Json → Prop
  | .arr items => OrderedItems items
  | .obj fields => (fields.map Prod.fst).Nodup ∧ fields.Pairwise (fun a b => a.1.toList ≤ b.1.toList) ∧
      OrderedFields fields
  | _ => True

def OrderedItems : List Json → Prop
  | [] => True
  | j :: rest => Ordered j ∧ OrderedItems rest

def OrderedFields : List (String × Json) → Prop
  | [] => True
  | (_, j) :: rest => Ordered j ∧ OrderedFields rest

end

theorem dict_nodup {pairs : List (String × Json)} (h : (pairs.map Prod.fst).Nodup) : dict pairs = pairs := by
  have hgen : ∀ (pairs d : List (String × Json)), ((d ++ pairs).map Prod.fst).Nodup →
      pairs.foldl (fun d p => if d.any (fun q => q.1 = p.1) then
        d.map (fun q => if q.1 = p.1 then p else q) else d ++ [p]) d = d ++ pairs := by
    intro pairs
    induction pairs with
    | nil => simp
    | cons p pairs ih =>
      intro d hd
      have hfresh : d.any (fun q => q.1 = p.1) = false := by
        simp only [List.map_append, List.map_cons, List.nodup_append] at hd
        simp only [List.any_eq_false, decide_eq_true_eq]
        intro q hq he
        exact hd.2.2 q.1 (List.mem_map_of_mem hq) p.1 List.mem_cons_self he
      rw [List.foldl_cons, hfresh, if_neg (by simp), ih (d ++ [p]) (by simpa using hd)]
      simp
  simpa [dict] using hgen pairs [] (by simpa using h)

theorem renderFields_eq (fields : List (String × Json)) :
    renderFields fields = fields.map (fun f => (f.1, f.2.render)) := by
  induction fields with
  | nil => rfl
  | cons f fields ih => simp [renderFields, ih]

/-- A field as it stands in an object's text. -/
def member (f : String × Json) : List Char := quoted f.1 ++ ':' :: f.2.render

/-- An object whose keys are in order is written field by field. -/
theorem render_obj {fields : List (String × Json)}
    (h : fields.Pairwise (fun a b => a.1.toList ≤ b.1.toList)) :
    (Json.obj fields).render = '\x7b' :: (joinComma (fields.map member) ++ ['\x7d']) := by
  have hsorted : (renderFields fields).insertionSort (fun a b => a.1.toList ≤ b.1.toList) = renderFields fields := by
    apply List.Pairwise.insertionSort_eq
    rw [renderFields_eq]
    exact List.pairwise_map.mpr h
  rw [render, hsorted, renderFields_eq, List.map_map]
  rfl

theorem render_head (j : Json) : ∃ c cs, j.render = c :: cs ∧ isBlank c = false ∧ c ≠ ']' := by
  cases j with
  | null => exact ⟨_, _, rfl, by decide⟩
  | bool b => cases b <;> exact ⟨_, _, rfl, by decide⟩
  | int i =>
    obtain ⟨c, cs, he, hc⟩ := toString_head i
    refine ⟨c, cs, he, ?_, ?_⟩
    · have hne : c ≠ ' ' ∧ c ≠ '\n' ∧ c ≠ '\r' ∧ c ≠ '\t' := by
        refine ⟨?_, ?_, ?_, ?_⟩ <;> rintro rfl <;> simp at hc
      simp [isBlank, hne]
    · rintro rfl
      simp at hc
  | str s => exact ⟨_, _, rfl, by decide⟩
  | arr items => exact ⟨'[', _, rfl, by decide⟩
  | obj fields => exact ⟨'\x7b', _, rfl, by decide⟩

theorem skip_render (j : Json) (rest : List Char) : skip (j.render ++ rest) = j.render ++ rest := by
  obtain ⟨c, cs, he, hb, _⟩ := render_head j
  rw [he, List.cons_append, skip_cons hb]

theorem joinComma_cons (x y : List Char) (rest : List (List Char)) :
    joinComma (x :: y :: rest) = x ++ ',' :: joinComma (y :: rest) := rfl

theorem joinComma_head (x : List Char) (rest : List (List Char)) : ∃ tail, joinComma (x :: rest) = x ++ tail := by
  cases rest with
  | nil => exact ⟨[], by simp [joinComma]⟩
  | cons y rest => exact ⟨_, joinComma_cons x y rest⟩

theorem member_length (name : String) (j : Json) :
    name.toList.length + 2 + j.render.length < (member (name, j)).length := by
  have hlen := escape_length name.toList
  simp only [member, quoted, List.length_append, List.length_cons, List.length_nil]
  omega

/-- The name and the value of a field are read; what follows decides whether
there are more. -/
theorem members_member {name : String} {tail : List Char}
    (hname : name.toList.length < n) (hv : value n (j.render ++ c :: tail) = some (j, c :: tail))
    (hb : isBlank c = false) :
    members (n + 1) (member (name, j) ++ c :: tail) =
      if c = ',' then (members n tail).bind (fun r => some ((name, j) :: r.1, r.2))
      else if c = '\x7d' then some ([(name, j)], tail)
      else none := by
  have hquote : skip (member (name, j) ++ c :: tail) = member (name, j) ++ c :: tail :=
    skip_cons (by decide)
  have hchars : chars n (name.toList.flatMap escapeChar ++ '"' :: ':' :: (j.render ++ c :: tail)) =
      some (name.toList, ':' :: (j.render ++ c :: tail)) := chars_escape hname
  have hcolon : skip (':' :: (j.render ++ c :: tail)) = ':' :: (j.render ++ c :: tail) := skip_cons (by decide)
  rw [members, hquote]
  simp [member, quoted, hchars, hcolon, hv, skip_cons hb]

mutual

theorem value_render : ∀ (j : Json) (n : Nat) (rest : List Char), j.Ordered → j.render.length ≤ n → Stops rest →
    value n (j.render ++ rest) = some (j, rest)
  | j, 0, rest, _, hn, _ => by
    obtain ⟨c, cs, he, _⟩ := render_head j
    simp [he] at hn
  | .null, n + 1, rest, _, _, _ => by simp [render, value, skip, isBlank, literal]
  | .bool true, n + 1, rest, _, _, _ => by simp [render, value, skip, isBlank, literal]
  | .bool false, n + 1, rest, _, _, _ => by simp [render, value, skip, isBlank, literal]
  | .int i, n + 1, rest, _, _, hr => by
    obtain ⟨c, cs, he, hc⟩ := toString_head i
    have hne : c ≠ '"' ∧ c ≠ '[' ∧ c ≠ '\x7b' := by
      refine ⟨?_, ?_, ?_⟩ <;> rintro rfl <;> simp at hc
    have hliteral := literal_toString i hr
    have hskip := skip_render (.int i) rest
    rw [value, hskip]
    simp only [render] at hskip ⊢
    rw [he] at hliteral ⊢
    simpa [hne] using hliteral
  | .str s, n + 1, rest, _, hn, _ => by
    have hlen := escape_length s.toList
    simp only [render, quoted, List.length_cons, List.length_append, List.length_nil] at hn
    rw [value, skip_render]
    simp [render, quoted, chars_escape (show s.toList.length < n by omega)]
  | .arr [], n + 1, rest, _, _, _ => by simp [render, renderItems, joinComma, value, skip, isBlank]
  | .arr (j :: items), n + 1, rest, ho, hn, _ => by
    obtain ⟨c, cs, he, hb, hc⟩ := render_head j
    have hlen : (joinComma (renderItems (j :: items))).length < n := by
      simp only [render, List.length_cons, List.length_append, List.length_nil] at hn
      omega
    have hitems := values_render j items n rest (by simpa [Ordered] using ho) hlen
    have hhead : (skip (joinComma (renderItems (j :: items)) ++ ']' :: rest)).head? ≠ some ']' := by
      obtain ⟨tail, ht⟩ := joinComma_head j.render (renderItems items)
      rw [renderItems, ht, List.append_assoc, skip_render, he]
      simpa using hc
    rw [value, skip_render]
    simp only [render, List.cons_append, List.append_assoc, List.nil_append]
    simp [hhead, hitems]
  | .obj [], n + 1, rest, _, _, _ => by simp [render, renderFields, joinComma, value, skip, isBlank]
  | .obj (f :: fields), n + 1, rest, ho, hn, _ => by
    obtain ⟨hkeys, hle, hmembers⟩ := ho
    have hlen : (joinComma ((f :: fields).map member)).length < n := by
      simp only [render_obj hle, List.length_cons, List.length_append, List.length_nil] at hn
      omega
    have hfields := members_render f fields n rest hmembers hlen
    have hhead : (skip (joinComma ((f :: fields).map member) ++ '\x7d' :: rest)).head? ≠ some '\x7d' := by
      obtain ⟨tail, ht⟩ := joinComma_head (member f) (fields.map member)
      rw [List.map_cons, ht, List.append_assoc, member, quoted, List.cons_append, List.cons_append,
        skip_cons (by decide)]
      simp
    rw [value, skip_render, render_obj hle]
    simp only [List.cons_append, List.append_assoc, List.nil_append]
    simp [-List.map_cons, hhead, hfields, dict_nodup hkeys]

theorem values_render : ∀ (j : Json) (items : List Json) (n : Nat) (rest : List Char), OrderedItems (j :: items) →
    (joinComma (renderItems (j :: items))).length < n →
    values n (joinComma (renderItems (j :: items)) ++ ']' :: rest) = some (j :: items, rest)
  | _, _, 0, _, _, hn => by simp at hn
  | j, [], n + 1, rest, ho, hn => by
    have hj := value_render j n (']' :: rest) ho.1 (by simpa [renderItems, joinComma, Nat.lt_succ_iff] using hn)
      (.cons (by simp))
    simp [renderItems, joinComma, values, hj, skip_cons, isBlank]
  | j, k :: items, n + 1, rest, ho, hn => by
    rw [renderItems, renderItems, joinComma_cons, ← renderItems, List.length_append, List.length_cons] at hn
    have hj := value_render j n (',' :: (joinComma (renderItems (k :: items)) ++ ']' :: rest)) ho.1 (by omega)
      (.cons (by simp))
    have hitems := values_render k items n rest ho.2 (by omega)
    rw [renderItems, renderItems, joinComma_cons, ← renderItems]
    simp [values, hj, skip_cons, isBlank, hitems]

theorem members_render : ∀ (f : String × Json) (fields : List (String × Json)) (n : Nat) (rest : List Char),
    OrderedFields (f :: fields) → (joinComma ((f :: fields).map member)).length < n →
    members n (joinComma ((f :: fields).map member) ++ '\x7d' :: rest) = some (f :: fields, rest)
  | _, _, 0, _, _, hn => by simp at hn
  | (name, j), [], n + 1, rest, ho, hn => by
    have hlen := member_length name j
    simp only [List.map_cons, List.map_nil, joinComma] at hn ⊢
    have hj := value_render j n ('\x7d' :: rest) ho.1 (by omega) (.cons (by simp))
    rw [members_member (by omega) hj (by decide)]
    simp
  | (name, j), g :: fields, n + 1, rest, ho, hn => by
    have hlen := member_length name j
    simp only [List.map_cons, joinComma_cons, List.length_append, List.length_cons] at hn
    have hj := value_render j n (',' :: (joinComma ((g :: fields).map member) ++ '\x7d' :: rest)) ho.1 (by omega)
      (.cons (by simp))
    have hfields := members_render g fields n rest ho.2 (by simpa only [List.map_cons] using (by omega))
    rw [List.map_cons, List.map_cons, joinComma_cons, ← List.map_cons, List.append_assoc, List.cons_append,
      members_member (by omega) hj (by decide), hfields]
    simp

end

/-- The text of a value whose keys are in order reads back as the value. -/
theorem loads_ordered (h : j.Ordered) : loads (canonical j) = some j := by
  have hvalue := value_render j (j.render.length + 1) [] h (by omega) (by simp [Stops])
  rw [List.append_nil] at hvalue
  have hlist : (canonical j).toList = j.render := String.toList_ofList
  unfold loads
  rw [hlist, hvalue]
  rfl

mutual

/-- No object has a key twice, as no dictionary does. -/
def Distinct : Json → Prop
  | .arr items => DistinctItems items
  | .obj fields => (fields.map Prod.fst).Nodup ∧ DistinctFields fields
  | _ => True

def DistinctItems : List Json → Prop
  | [] => True
  | j :: rest => Distinct j ∧ DistinctItems rest

def DistinctFields : List (String × Json) → Prop
  | [] => True
  | (_, j) :: rest => Distinct j ∧ DistinctFields rest

end

mutual

/-- The value with every object's keys in order. -/
def arranged : Json → Json
  | .arr items => .arr (arrangedItems items)
  | .obj fields => .obj ((arrangedFields fields).insertionSort (fun a b => a.1.toList ≤ b.1.toList))
  | j => j

def arrangedItems : List Json → List Json
  | [] => []
  | j :: rest => arranged j :: arrangedItems rest

def arrangedFields : List (String × Json) → List (String × Json)
  | [] => []
  | (name, j) :: rest => (name, arranged j) :: arrangedFields rest

end

theorem arrangedFields_eq (fields : List (String × Json)) :
    arrangedFields fields = fields.map (fun f => (f.1, f.2.arranged)) := by
  induction fields with
  | nil => rfl
  | cons f fields ih => simp [arrangedFields, ih]

theorem orderedFields_iff {fields : List (String × Json)} : OrderedFields fields ↔ ∀ f ∈ fields, f.2.Ordered := by
  induction fields with
  | nil => simp [OrderedFields]
  | cons f fields ih => simp [OrderedFields, ih]

/-- Fields in key order. -/
def byKey {α : Type} (fields : List (String × α)) : List (String × α) :=
  fields.insertionSort (fun a b => a.1.toList ≤ b.1.toList)

theorem byKey_pairwise {α : Type} (fields : List (String × α)) :
    (byKey fields).Pairwise (fun a b => a.1.toList ≤ b.1.toList) := by
  have htotal : Std.Total (fun a b : String × α => a.1.toList ≤ b.1.toList) :=
    ⟨fun a b => le_total a.1.toList b.1.toList⟩
  have htrans : IsTrans (String × α) (fun a b => a.1.toList ≤ b.1.toList) :=
    ⟨fun _ _ _ => le_trans⟩
  exact List.pairwise_insertionSort _ fields

theorem byKey_map {α β : Type} (f : α → β) (fields : List (String × α)) :
    (byKey fields).map (fun p => (p.1, f p.2)) = byKey (fields.map (fun p => (p.1, f p.2))) :=
  List.map_insertionSort _ _ _ _ (fun _ _ _ _ => Iff.rfl)

mutual

theorem arranged_ordered : ∀ j : Json, j.Distinct → j.arranged.Ordered
  | .null, _ | .bool _, _ | .int _, _ | .str _, _ => trivial
  | .arr items, h => arrangedItems_ordered items h
  | .obj fields, h => by
    have hperm : List.Perm (byKey (arrangedFields fields)) (arrangedFields fields) := List.perm_insertionSort _ _
    have hkeys : ((arrangedFields fields).map Prod.fst).Nodup := by
      rw [arrangedFields_eq, List.map_map]
      exact h.1
    refine ⟨(hperm.map Prod.fst).nodup_iff.mpr hkeys, byKey_pairwise _, ?_⟩
    have hfields := orderedFields_iff.mp (arrangedFields_ordered fields h.2)
    exact orderedFields_iff.mpr (fun f hf => hfields f (hperm.mem_iff.mp hf))

theorem arrangedItems_ordered : ∀ items : List Json, DistinctItems items → OrderedItems (arrangedItems items)
  | [], _ => trivial
  | j :: items, h => ⟨arranged_ordered j h.1, arrangedItems_ordered items h.2⟩

theorem arrangedFields_ordered : ∀ fields : List (String × Json), DistinctFields fields →
    OrderedFields (arrangedFields fields)
  | [], _ => trivial
  | (_, j) :: fields, h => ⟨arranged_ordered j h.1, arrangedFields_ordered fields h.2⟩

end

mutual

theorem arranged_render : ∀ j : Json, j.arranged.render = j.render
  | .null | .bool _ | .int _ | .str _ => rfl
  | .arr items => by rw [arranged, render, render, arrangedItems_render items]
  | .obj fields => by
    have hsame : renderFields (byKey (arrangedFields fields)) = byKey (renderFields fields) := by
      rw [renderFields_eq, byKey_map, ← renderFields_eq, arrangedFields_render fields]
    have hsorted : byKey (byKey (renderFields fields)) = byKey (renderFields fields) :=
      (byKey_pairwise _).insertionSort_eq
    rw [arranged, render, render]
    simp only [byKey] at hsame hsorted
    rw [hsame, hsorted]

theorem arrangedItems_render : ∀ items : List Json, renderItems (arrangedItems items) = renderItems items
  | [] => rfl
  | j :: items => by rw [arrangedItems, renderItems, renderItems, arranged_render j, arrangedItems_render items]

theorem arrangedFields_render : ∀ fields : List (String × Json),
    renderFields (arrangedFields fields) = renderFields fields
  | [] => rfl
  | (_, j) :: fields => by
    rw [arrangedFields, renderFields, renderFields, arranged_render j, arrangedFields_render fields]

end

/-- A value's canonical text reads back as the value with its keys in order,
whose canonical text is the same. -/
theorem loads_canonical (h : j.Distinct) :
    loads (canonical j) = some j.arranged ∧ canonical j.arranged = canonical j := by
  have htext : canonical j.arranged = canonical j := by rw [canonical, canonical, arranged_render]
  exact ⟨htext ▸ loads_ordered (arranged_ordered j h), htext⟩

/-- Objects of one canonical text have the same fields. -/
theorem fields_of_canonical {fields fields' : List (String × Json)} (h : (Json.obj fields).Distinct)
    (h' : (Json.obj fields').Distinct) (heq : canonical (.obj fields) = canonical (.obj fields')) {f : String × Json}
    (hf : f ∈ fields) : ∃ g ∈ fields', g.1 = f.1 ∧ g.2.arranged = f.2.arranged := by
  have hloads := (loads_canonical h).1
  rw [heq, (loads_canonical h').1, Option.some.injEq, arranged, arranged, Json.obj.injEq] at hloads
  have hperm : List.Perm (arrangedFields fields) (arrangedFields fields') :=
    (List.perm_insertionSort _ _).symm.trans (hloads ▸ List.perm_insertionSort _ _)
  rw [arrangedFields_eq, arrangedFields_eq] at hperm
  obtain ⟨g, hg, he⟩ := List.mem_map.mp (hperm.subset (List.mem_map_of_mem hf))
  exact ⟨g, hg, (Prod.mk.inj he).1, (Prod.mk.inj he).2⟩

end AItelier.Lib.Json
