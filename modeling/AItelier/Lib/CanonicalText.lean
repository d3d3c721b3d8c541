import AItelier.Lib.JsonText
import AItelier.Lib.ValueText

namespace AItelier.Lib

namespace Value

open Json (Stops byKey hexDigit hexValue)

mutual

/-- The value with its keys in order, and its floats by their text alone. -/
def canon : Value → Value
  | .float f => .float ⟨f.text, none, f.nonblank⟩
  | .arr items => .arr (canonItems items)
  | .obj fields => .obj (byKey (canonFields fields))
  | v => v

def canonItems : List Value → List Value
  | [] => []
  | v :: rest => canon v :: canonItems rest

def canonFields : List (String × Value) → List (String × Value)
  | [] => []
  | f :: rest => (f.1, canon f.2) :: canonFields rest

end

theorem canonItems_eq (items : List Value) : canonItems items = items.map canon := by
  induction items with
  | nil => rfl
  | cons v items ih => simp [canonItems, ih]

theorem canonFields_eq (fields : Dict) : canonFields fields = fields.map (fun f => (f.1, canon f.2)) := by
  induction fields with
  | nil => rfl
  | cons f fields ih => simp [canonFields, ih]

theorem renderItems_eq (items : List Value) : renderItems items = items.map render := by
  induction items with
  | nil => rfl
  | cons v items ih => simp [renderItems, ih]

theorem renderFields_eq (fields : Dict) : renderFields fields = fields.map (fun f => (f.1, render f.2)) := by
  induction fields with
  | nil => rfl
  | cons f fields ih => simp [renderFields, ih]

/-- Four hexadecimal digits behind `\u`. -/
def readUnicode4 : List Char → Option (Nat × List Char)
  | _ :: _ :: a :: b :: c :: d :: rest => do
    let code := (← hexValue a) * 4096 + (← hexValue b) * 256 + (← hexValue c) * 16 + (← hexValue d)
    return (code, rest)
  | _ => none

theorem readUnicode4_append {n : Nat} (h : n < 65536) (rest : List Char) :
    readUnicode4 (unicode4 n ++ rest) = some (n, rest) := by
  have hcode : n / 4096 % 16 * 4096 + n / 256 % 16 * 256 + n / 16 % 16 * 16 + n % 16 = n := by omega
  have h1 := Json.hexValue_hexDigit (Nat.mod_lt (n / 4096) (by decide : 0 < 16))
  have h2 := Json.hexValue_hexDigit (Nat.mod_lt (n / 256) (by decide : 0 < 16))
  have h3 := Json.hexValue_hexDigit (Nat.mod_lt (n / 16) (by decide : 0 < 16))
  have h4 := Json.hexValue_hexDigit (Nat.mod_lt n (by decide : 0 < 16))
  simp [readUnicode4, unicode4, h1, h2, h3, h4, hcode]

theorem unit_unicode4 {n : Nat} (h : n < 65536) (rest : List Char) :
    Json.unit (unicode4 n ++ rest) = if n.isValidChar then some (Char.ofNat n, rest) else none := by
  have hcode : n / 4096 % 16 * 4096 + n / 256 % 16 * 256 + n / 16 % 16 * 16 + n % 16 = n := by omega
  have h1 := Json.hexValue_hexDigit (Nat.mod_lt (n / 4096) (by decide : 0 < 16))
  have h2 := Json.hexValue_hexDigit (Nat.mod_lt (n / 256) (by decide : 0 < 16))
  have h3 := Json.hexValue_hexDigit (Nat.mod_lt (n / 16) (by decide : 0 < 16))
  have h4 := Json.hexValue_hexDigit (Nat.mod_lt n (by decide : 0 < 16))
  simp [Json.unit, Json.unicodeEscape, unicode4, h1, h2, h3, h4, hcode]

variable {c : Char} {v : Value} {d e : Dict}

/-- A character of the basic plane reads back. -/
theorem unit_ascii (h : c.toNat < 0x10000) (rest : List Char) :
    Json.unit (asciiChar c ++ rest) = some (c, rest) := by
  unfold asciiChar
  split
  · exact Json.unit_escape c rest
  · rw [unit_unicode4 h, if_pos (show c.toNat.isValidChar from c.valid), Char.ofNat_toNat]

theorem surrogates (h : ¬c.toNat < 0x10000) :
    asciiChar c = unicode4 (0xD800 + (c.toNat - 0x10000) / 1024) ++ unicode4 (0xDC00 + (c.toNat - 0x10000) % 1024) := by
  rw [asciiChar, if_neg (by omega), if_neg h]

theorem toNat_bound (c : Char) : c.toNat < 0x110000 := by
  have hvalid := c.valid
  rcases hvalid with h | ⟨_, h⟩
  · exact Nat.lt_trans h (by decide)
  · exact h

/-- What does not read back as one unit is beyond the basic plane. -/
theorem unit_surrogates (h : ¬c.toNat < 0x10000) (rest : List Char) :
    Json.unit (asciiChar c ++ rest) = none := by
  have hbound := toNat_bound c
  rw [surrogates h, List.append_assoc, unit_unicode4 (by omega), if_neg]
  rintro (hlow | ⟨hhigh, _⟩)
  · omega
  · omega

theorem asciiChar_inj {c d : Char} {x y : List Char} (h : asciiChar c ++ x = asciiChar d ++ y) : c = d ∧ x = y := by
  by_cases hc : c.toNat < 0x10000
  · have hread := unit_ascii hc x
    by_cases hd : d.toNat < 0x10000
    · rw [h, unit_ascii hd] at hread
      cases hread
      exact ⟨rfl, rfl⟩
    · rw [h, unit_surrogates hd] at hread
      cases hread
  · have hnone := unit_surrogates hc x
    by_cases hd : d.toNat < 0x10000
    · rw [h, unit_ascii hd] at hnone
      cases hnone
    · have hcb := toNat_bound c
      have hdb := toNat_bound d
      rw [surrogates hc, surrogates hd, List.append_assoc, List.append_assoc] at h
      have hhigh := congrArg readUnicode4 h
      rw [readUnicode4_append (by omega), readUnicode4_append (by omega)] at hhigh
      injection hhigh with hhigh
      obtain ⟨hupper, htail⟩ := Prod.mk.inj hhigh
      have hlow := congrArg readUnicode4 htail
      rw [readUnicode4_append (by omega), readUnicode4_append (by omega)] at hlow
      injection hlow with hlow
      obtain ⟨hlower, hrest⟩ := Prod.mk.inj hlow
      exact ⟨Char.toNat_inj.mp (by omega), hrest⟩

theorem asciiChar_head (c : Char) (rest : List Char) : (asciiChar c ++ rest).head? ≠ some '"' := by
  by_cases h : c.toNat < 127
  · rw [asciiChar, if_pos h]
    exact Json.escape_head c rest
  · by_cases h' : c.toNat < 0x10000
    · rw [asciiChar, if_neg h, if_pos h']
      simp [unicode4]
    · rw [surrogates h']
      simp [unicode4]

theorem chars_inj {s t x y : List Char} (h : s.flatMap asciiChar ++ '"' :: x = t.flatMap asciiChar ++ '"' :: y) :
    s = t ∧ x = y := by
  induction s generalizing t with
  | nil =>
    cases t with
    | nil => exact ⟨rfl, (List.cons.inj h).2⟩
    | cons d t =>
      rw [List.flatMap_cons, List.append_assoc] at h
      exact absurd (congrArg List.head? h).symm (asciiChar_head d _)
  | cons c s ih =>
    cases t with
    | nil =>
      rw [List.flatMap_cons, List.append_assoc] at h
      exact absurd (congrArg List.head? h) (asciiChar_head c _)
    | cons d t =>
      rw [List.flatMap_cons, List.flatMap_cons, List.append_assoc, List.append_assoc] at h
      obtain ⟨rfl, htail⟩ := asciiChar_inj h
      obtain ⟨rfl, hrest⟩ := ih htail
      exact ⟨rfl, hrest⟩

theorem quotedAscii_inj {s t : String} {x y : List Char} (h : quotedAscii s ++ x = quotedAscii t ++ y) :
    s = t ∧ x = y := by
  rw [quotedAscii, quotedAscii, List.cons_append, List.cons_append, List.append_assoc, List.append_assoc] at h
  obtain ⟨hs, hxy⟩ := chars_inj (List.cons.inj h).2
  exact ⟨String.toList_inj.mp hs, hxy⟩

theorem stops_number {rest : List Char} (h : Stops rest) : ∀ c ∈ rest.head?, numberChar c = false := by
  intro c hc
  rcases h c hc with rfl | rfl | rfl <;> decide

/-- Two texts of one kind of character, each before something of another kind. -/
theorem span_inj {p : Char → Bool} {xs ys r r' : List Char} (hx : ∀ c ∈ xs, p c = true) (hy : ∀ c ∈ ys, p c = true)
    (hr : ∀ c ∈ r.head?, p c = false) (hr' : ∀ c ∈ r'.head?, p c = false) (h : xs ++ r = ys ++ r') :
    xs = ys ∧ r = r' := by
  induction xs generalizing ys with
  | nil =>
    cases ys with
    | nil => exact ⟨rfl, h⟩
    | cons d ys =>
      have hd := hy d List.mem_cons_self
      rw [hr d (by rw [show r = d :: (ys ++ r') from h]; rfl)] at hd
      cases hd
  | cons c xs ih =>
    cases ys with
    | nil =>
      have hc := hx c List.mem_cons_self
      rw [hr' c (by rw [show r' = c :: (xs ++ r) from h.symm]; rfl)] at hc
      cases hc
    | cons d ys =>
      obtain ⟨rfl, htail⟩ := List.cons.inj h
      obtain ⟨rfl, hrest⟩ := ih (fun c hc => hx c (List.mem_cons_of_mem _ hc))
        (fun c hc => hy c (List.mem_cons_of_mem _ hc)) htail
      exact ⟨rfl, hrest⟩

/-- An integer's text has digits and a sign. -/
theorem toString_chars (i : Int) : ∀ c ∈ (toString i).toList, c = '-' ∨ c.isDigit = true := by
  rw [Int.toString_eq_repr, Int.repr_eq_if]
  split
  · rw [Nat.toList_repr]
    exact fun c hc => .inr (Nat.isDigit_of_mem_toDigits (by decide) (by decide) hc)
  · rw [String.toList_append, Nat.toList_repr]
    intro c hc
    rcases List.mem_append.mp hc with hc | hc
    · exact .inl (List.mem_singleton.mp hc)
    · exact .inr (Nat.isDigit_of_mem_toDigits (by decide) (by decide) hc)

theorem toString_number (i : Int) : ∀ c ∈ (toString i).toList, numberChar c = true := by
  intro c hc
  rcases toString_chars i c hc with rfl | hd
  · rfl
  · simp [numberChar, hd]

theorem toString_int_inj {i j : Int} (h : (toString i).toList = (toString j).toList) : i = j := by
  have hstops : Stops [] := fun c hc => absurd hc (by simp)
  have hi := Json.number_toString i hstops
  have hj := Json.number_toString j hstops
  rw [h, hj] at hi
  cases hi
  rfl

/-- No integer's text is a float's. -/
theorem int_ne_float {i : Int} {s : String} (hs : FloatText s) : (toString i).toList ≠ s.toList := by
  intro h
  rcases hs.2 with hmem | hmem
  · rw [← h] at hmem
    rcases toString_chars i _ hmem with hc | hc <;> revert hc <;> decide
  · rw [← h] at hmem
    rcases toString_chars i _ hmem with hc | hc <;> revert hc <;> decide

/-- What follows the first of several texts: the others behind commas, and the
closing bracket. -/
def behind (closing : Char) (r : List Char) : List (List Char) → List Char
  | [] => closing :: r
  | x :: rest => ',' :: (x ++ behind closing r rest)

theorem joinComma_behind (closing : Char) (r x : List Char) (rest : List (List Char)) :
    Json.joinComma (x :: rest) ++ closing :: r = x ++ behind closing r rest := by
  induction rest generalizing x with
  | nil => rfl
  | cons y rest ih =>
    rw [Json.joinComma_cons, List.append_assoc, List.cons_append, ih]
    rfl

theorem stops_behind {closing : Char} (hc : closing = ']' ∨ closing = '\x7d') (r : List Char)
    (rest : List (List Char)) :
    Stops (behind closing r rest) := by
  cases rest with
  | nil => exact Stops.cons (.inr hc)
  | cons x rest => exact Stops.cons (.inl rfl)

section Joined

variable {α γ : Type} {text : α → List Char} {f : α → γ} {closing : Char} {xs ys : List α} {r r' : List Char}

theorem behind_inj (hc : closing = ']' ∨ closing = '\x7d')
    (hread : ∀ x ∈ xs, ∀ y ∈ ys, ∀ r r', Stops r → Stops r' → text x ++ r = text y ++ r' → f x = f y ∧ r = r')
    (h : behind closing r (xs.map text) = behind closing r' (ys.map text)) : xs.map f = ys.map f ∧ r = r' := by
  have hcomma : closing ≠ ',' := by rcases hc with rfl | rfl <;> decide
  induction xs generalizing ys with
  | nil =>
    cases ys with
    | nil => exact ⟨rfl, (List.cons.inj h).2⟩
    | cons y ys => exact absurd (List.cons.inj h).1 hcomma
  | cons x xs ih =>
    cases ys with
    | nil => exact absurd (List.cons.inj h).1.symm hcomma
    | cons y ys =>
      obtain ⟨hxy, htail⟩ := hread x List.mem_cons_self y List.mem_cons_self _ _ (stops_behind hc r _)
        (stops_behind hc r' _) (List.cons.inj h).2
      obtain ⟨hrest, hr⟩ := ih (fun x hx y hy =>
        hread x (List.mem_cons_of_mem _ hx) y (List.mem_cons_of_mem _ hy)) htail
      exact ⟨by rw [List.map_cons, List.map_cons, hxy, hrest], hr⟩

theorem joinComma_inj (hc : closing = ']' ∨ closing = '\x7d')
    (hhead : ∀ x ∈ xs ++ ys, ∀ rest, (text x ++ rest).head? ≠ some closing)
    (hread : ∀ x ∈ xs, ∀ y ∈ ys, ∀ r r', Stops r → Stops r' → text x ++ r = text y ++ r' → f x = f y ∧ r = r')
    (h : Json.joinComma (xs.map text) ++ closing :: r = Json.joinComma (ys.map text) ++ closing :: r') :
    xs.map f = ys.map f ∧ r = r' := by
  cases xs with
  | nil =>
    cases ys with
    | nil => exact ⟨rfl, (List.cons.inj h).2⟩
    | cons y ys =>
      rw [List.map_cons, joinComma_behind] at h
      exact absurd (congrArg List.head? h).symm (hhead y List.mem_cons_self _)
  | cons x xs =>
    cases ys with
    | nil =>
      rw [List.map_cons, joinComma_behind] at h
      exact absurd (congrArg List.head? h) (hhead x List.mem_cons_self _)
    | cons y ys =>
      rw [List.map_cons, List.map_cons, joinComma_behind, joinComma_behind] at h
      obtain ⟨hxy, htail⟩ := hread x List.mem_cons_self y List.mem_cons_self _ _ (stops_behind hc r _)
        (stops_behind hc r' _) h
      obtain ⟨hrest, hr⟩ := behind_inj hc
        (fun x hx y hy => hread x (List.mem_cons_of_mem _ hx) y (List.mem_cons_of_mem _ hy)) htail
      exact ⟨by rw [List.map_cons, List.map_cons, hxy, hrest], hr⟩

end Joined

/-- What a value's text opens with. -/
def opener (c : Char) : Nat :=
  if c = 'n' then 0 else if c = 't' then 1 else if c = 'f' then 2 else if c = '"' then 3
  else if c = '[' then 4 else if c = '\x7b' then 5 else if numberChar c then 6 else 7

def kind : Value → Nat
  | .null => 0
  | .bool b => if b then 1 else 2
  | .str _ => 3
  | .arr _ => 4
  | .obj _ => 5
  | .int _ | .float _ => 6

theorem opener_number (h : numberChar c = true) : opener c = 6 := by
  have hne : c ≠ 'n' ∧ c ≠ 't' ∧ c ≠ 'f' ∧ c ≠ '"' ∧ c ≠ '[' ∧ c ≠ '\x7b' := by
    refine ⟨?_, ?_, ?_, ?_, ?_, ?_⟩ <;> rintro rfl <;> revert h <;> decide
  obtain ⟨h1, h2, h3, h4, h5, h6⟩ := hne
  rw [opener, if_neg h1, if_neg h2, if_neg h3, if_neg h4, if_neg h5, if_neg h6, if_pos h]

theorem render_opener (h : v.Plain) : ∃ c cs, v.render = c :: cs ∧ opener c = v.kind := by
  cases v with
  | null => exact ⟨_, _, rfl, rfl⟩
  | bool b => cases b <;> exact ⟨_, _, rfl, rfl⟩
  | int i =>
    obtain ⟨c, cs, he, _⟩ := Json.toString_head i
    refine ⟨c, cs, he, opener_number (toString_number i c ?_)⟩
    rw [he]
    exact List.mem_cons_self
  | float f =>
    rw [Plain] at h
    obtain ⟨c, cs, he⟩ := List.exists_cons_of_ne_nil (fun hnil => f.nonblank (String.toList_eq_nil_iff.mp hnil))
    refine ⟨c, cs, he, opener_number (h.1 c ?_)⟩
    rw [he]
    exact List.mem_cons_self
  | str s => exact ⟨_, _, rfl, rfl⟩
  | arr items => exact ⟨_, _, rfl, rfl⟩
  | obj fields => exact ⟨_, _, rfl, rfl⟩

theorem render_head_ne (h : v.Plain) (rest : List Char) : (v.render ++ rest).head? ≠ some ']' := by
  obtain ⟨c, cs, he, hc⟩ := render_opener h
  rw [he]
  intro hclose
  have hbracket : c = ']' := by simpa using hclose
  have hseven : v.kind = 7 := hc.symm.trans (hbracket ▸ rfl)
  cases v with
  | bool b => cases b <;> cases hseven
  | _ => cases hseven

/-- A field as it stands in an object's text. -/
def member (f : String × Value) : List Char := quotedAscii f.1 ++ ':' :: f.2.render

theorem render_obj (fields : Dict) :
    (obj fields).render = '\x7b' :: (Json.joinComma ((byKey fields).map member) ++ ['\x7d']) := by
  have hsorted : (renderFields fields).insertionSort (fun a b => a.1.toList ≤ b.1.toList) =
      (byKey fields).map (fun f => (f.1, f.2.render)) := by
    rw [renderFields_eq]
    exact (Json.byKey_map _ fields).symm
  rw [render, hsorted, List.map_map]
  rfl

theorem mem_byKey (f : String × Value) (fields : Dict) : f ∈ byKey fields ↔ f ∈ fields :=
  (List.perm_insertionSort _ fields).mem_iff

theorem render_arr (items : List Value) : (arr items).render = '[' :: (Json.joinComma (items.map render) ++ [']']) := by
  rw [render, renderItems_eq]

/-- The text of the value, before whatever may follow it, is no other's. -/
def Reads (v : Value) : Prop :=
  ∀ (w : Value) r r', w.Plain → Stops r → Stops r' → v.render ++ r = w.render ++ r' → v.canon = w.canon ∧ r = r'

theorem member_inj {f g : String × Value} {r r' : List Char} (hf : Reads f.2) (hg : g.2.Plain) (hr : Stops r)
    (hr' : Stops r') (h : member f ++ r = member g ++ r') : (f.1, f.2.canon) = (g.1, g.2.canon) ∧ r = r' := by
  rw [member, member, List.append_assoc, List.append_assoc] at h
  obtain ⟨hname, htail⟩ := quotedAscii_inj h
  obtain ⟨hvalue, hrest⟩ := hf g.2 r r' hg hr hr' (List.cons.inj htail).2
  exact ⟨Prod.ext hname hvalue, hrest⟩

theorem reads_number (hkind : v.kind = 6) (hv : v.Plain) : Reads v := by
  intro w r r' hw hr hr' h
  obtain ⟨c, cs, hvtext, hcv⟩ := render_opener hv
  obtain ⟨d, ds, hwtext, hdw⟩ := render_opener hw
  have hhead : c = d := by
    rw [hvtext, hwtext] at h
    exact (List.cons.inj h).1
  have hwkind : w.kind = 6 := by rw [← hdw, ← hhead, hcv, hkind]
  have hchars : ∀ u : Value, u.kind = 6 → u.Plain → ∀ c ∈ u.render, numberChar c = true := by
    intro u hu hplain
    cases u with
    | int i => exact toString_number i
    | float f =>
      rw [Plain] at hplain
      exact hplain.1
    | bool b => cases b <;> cases hu
    | _ => cases hu
  obtain ⟨htext, hrest⟩ := span_inj (hchars v hkind hv) (hchars w hwkind hw) (stops_number hr) (stops_number hr') h
  refine ⟨?_, hrest⟩
  cases v with
  | int i =>
    cases w with
    | int j => rw [toString_int_inj htext]
    | float g =>
      rw [Plain] at hw
      exact absurd htext (int_ne_float hw)
    | bool b => cases b <;> cases hwkind
    | _ => cases hwkind
  | float f =>
    rw [Plain] at hv
    cases w with
    | int j => exact absurd htext.symm (int_ne_float hv)
    | float g =>
      have hsame : f.text = g.text := String.toList_inj.mp htext
      simp only [canon, hsame]
    | bool b => cases b <;> cases hwkind
    | _ => cases hwkind
  | bool b => cases b <;> cases hkind
  | _ => cases hkind

/-- Values whose texts open alike are of one kind. -/
theorem kind_eq {v w : Value} {r r' : List Char} (hv : v.Plain) (hw : w.Plain) (h : v.render ++ r = w.render ++ r') :
    v.kind = w.kind := by
  obtain ⟨c, cs, hvtext, hcv⟩ := render_opener hv
  obtain ⟨d, ds, hwtext, hdw⟩ := render_opener hw
  rw [hvtext, hwtext] at h
  rw [← hcv, ← hdw, (List.cons.inj h).1]

mutual

theorem reads : ∀ v : Value, v.Plain → Reads v
  | .null, hv => by
    intro w r r' hw _ _ h
    have hkind := kind_eq hv hw h
    cases w with
    | null => exact ⟨rfl, List.append_cancel_left h⟩
    | bool b => cases b <;> cases hkind
    | _ => cases hkind
  | .bool b, hv => by
    intro w r r' hw _ _ h
    have hkind := kind_eq hv hw h
    cases w with
    | bool b' =>
      have hb : b = b' := by cases b <;> cases b' <;> first | rfl | cases hkind
      subst hb
      exact ⟨rfl, List.append_cancel_left h⟩
    | _ => cases b <;> cases hkind
  | .int i, hv => reads_number rfl hv
  | .float f, hv => reads_number rfl hv
  | .str s, hv => by
    intro w r r' hw _ _ h
    have hkind := kind_eq hv hw h
    cases w with
    | str t =>
      obtain ⟨rfl, hrest⟩ := quotedAscii_inj h
      exact ⟨rfl, hrest⟩
    | bool b => cases b <;> cases hkind
    | _ => cases hkind
  | .arr items, hv => by
    intro w r r' hw hr hr' h
    have hkind := kind_eq hv hw h
    rw [Plain] at hv
    have hreads := readsItems items hv
    cases w with
    | arr others =>
      rw [plain_arr] at hw
      rw [render_arr, render_arr, List.cons_append, List.cons_append, List.append_assoc, List.append_assoc] at h
      rw [plainItems_iff] at hv
      obtain ⟨hitems, hrest⟩ := joinComma_inj (.inl rfl)
        (fun x hx rest => render_head_ne ((List.mem_append.mp hx).elim (hv x) (hw x)) rest)
        (fun x hx y hy r r' hr hr' h => hreads x hx y r r' (hw y hy) hr hr' h) (List.cons.inj h).2
      rw [canon, canon, canonItems_eq, canonItems_eq, hitems]
      exact ⟨rfl, hrest⟩
    | bool b => cases b <;> cases hkind
    | _ => cases hkind
  | .obj fields, hv => by
    intro w r r' hw hr hr' h
    have hkind := kind_eq hv hw h
    rw [Plain] at hv
    have hreads := readsFields fields hv.2
    cases w with
    | obj others =>
      rw [plain_obj] at hw
      rw [render_obj, render_obj, List.cons_append, List.cons_append, List.append_assoc, List.append_assoc] at h
      obtain ⟨hfields, hrest⟩ := joinComma_inj (.inr rfl)
        (fun x _ rest hclose => by simp [member, quotedAscii] at hclose)
        (fun f hf g hg r r' hr hr' h => member_inj (hreads f ((mem_byKey f fields).mp hf))
          (hw.2 g ((mem_byKey g others).mp hg)) hr hr' h) (List.cons.inj h).2
      rw [canon, canon, canonFields_eq, canonFields_eq, ← Json.byKey_map, ← Json.byKey_map, hfields]
      exact ⟨rfl, hrest⟩
    | bool b => cases b <;> cases hkind
    | _ => cases hkind

theorem readsItems : ∀ items : List Value, PlainItems items → ∀ v ∈ items, Reads v
  | [], _ => fun v hv => absurd hv List.not_mem_nil
  | v :: rest, h => by
    rw [PlainItems] at h
    intro u hu
    rcases List.mem_cons.mp hu with heq | hu
    · exact heq ▸ reads v h.1
    · exact readsItems rest h.2 u hu

theorem readsFields : ∀ fields : Dict, PlainFields fields → ∀ f ∈ fields, Reads f.2
  | [], _ => fun f hf => absurd hf List.not_mem_nil
  | (name, v) :: rest, h => by
    rw [PlainFields] at h
    intro g hg
    rcases List.mem_cons.mp hg with rfl | hg
    · exact reads v h.1
    · exact readsFields rest h.2 g hg

end

/-- Equal texts are of equal values. -/
theorem canon_eq_of_dumps {v w : Value} (hv : v.Plain) (hw : w.Plain) (h : v.dumps = w.dumps) : v.canon = w.canon := by
  have hstops : Stops [] := fun c hc => absurd hc (by simp)
  have htext : v.render = w.render := String.ofList_injective h
  exact (reads v hv w [] [] hw hstops hstops (by rw [htext])).1

theorem find_iff {d : Dict} (hd : (d.map Prod.fst).Nodup) {name : String} :
    d.find name = some v ↔ (name, v) ∈ d := by
  constructor
  · intro hv
    obtain ⟨f, hf, rfl⟩ := Option.map_eq_some_iff.mp hv
    have hname := List.find?_some hf
    exact beq_iff_eq.mp hname ▸ List.mem_of_find?_eq_some hf
  · exact fun hmem => Dict.find_of_mem hd hmem

theorem find_perm (hd : (d.map Prod.fst).Nodup) (h : d.Perm e) (name : String) : d.find name = e.find name := by
  have he : (e.map Prod.fst).Nodup := (h.map Prod.fst).nodup_iff.mp hd
  apply Option.ext
  intro v
  exact (find_iff hd).trans (h.mem_iff.trans (find_iff he).symm)

theorem find_canonFields (d : Dict) (name : String) : Dict.find (canonFields d) name = (d.find name).map canon := by
  induction d with
  | nil => rfl
  | cons f d ih =>
    by_cases hf : f.1 = name
    · simp [canonFields, Dict.find, hf]
    · simpa [canonFields, Dict.find, hf] using ih

/-- Equal canonical objects agree at each key. -/
theorem find_canon (hd : (obj d).Plain) (h : (obj d).canon = (obj e).canon)
    (name : String) : (d.find name).map canon = (e.find name).map canon := by
  rw [plain_obj] at hd
  rw [canon, canon, obj.injEq] at h
  have hkeys : ∀ fields : Dict, (canonFields fields).map Prod.fst = fields.map Prod.fst := by
    intro fields
    rw [canonFields_eq, List.map_map]
    rfl
  have hsort : ∀ fields : Dict, (byKey fields).Perm fields := fun fields => List.perm_insertionSort _ fields
  have hperm : (canonFields d).Perm (canonFields e) := (hsort _).symm.trans (h ▸ hsort _)
  rw [← find_canonFields, ← find_canonFields]
  exact find_perm (hkeys d ▸ hd.1) hperm name

theorem get_canon (hd : (obj d).Plain) (h : (obj d).canon = (obj e).canon)
    (name : String) : (d.get name).canon = (e.get name).canon := by
  have hfind := find_canon hd h name
  rw [Dict.get, Dict.get]
  cases hv : d.find name with
  | none =>
    rw [hv] at hfind
    rw [Option.map_eq_none_iff.mp hfind.symm]
  | some v =>
    rw [hv] at hfind
    obtain ⟨w, hw, hcanon⟩ := Option.map_eq_some_iff.mp hfind.symm
    rw [hw]
    exact hcanon.symm

theorem canon_str {s : String} (h : v.canon = .str s) : v = .str s := by
  cases v with
  | str t => exact h
  | _ => simp [canon] at h

theorem canon_bool {b : Bool} (h : v.canon = .bool b) : v = .bool b := by
  cases v with
  | bool t => exact h
  | _ => simp [canon] at h

end Value

end AItelier.Lib
