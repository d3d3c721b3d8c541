import Mathlib.Data.List.Basic

namespace AItelier.Lib

/-- A float as far as its readers tell it apart: the text `repr` gives it, and
the integer it equals, if it equals one. -/
structure PyFloat where
  text : String
  whole : Option Int
  nonblank : text ≠ ""
  deriving DecidableEq

inductive Value
  | null
  | bool (b : Bool)
  | int (i : Int)
  | float (f : PyFloat)
  | str (s : String)
  | arr (items : List Value)
  | obj (fields : List (String × Value))

/-- A dictionary in insertion order. -/
abbrev Dict := List (String × Value)

namespace Value

/-- `bool(v)`. -/
def truthy : Value → Bool
  | null => false
  | bool b => b
  | int i => i != 0
  | float f => f.whole != some 0
  | str s => s != ""
  | arr items => !items.isEmpty
  | obj fields => !fields.isEmpty

/-- `v is True`. -/
def isTrue : Value → Bool
  | bool b => b
  | _ => false

/-- `v is False`. -/
def isFalse : Value → Bool
  | bool b => !b
  | _ => false

def isNull : Value → Bool
  | null => true
  | _ => false

/-- `v == s` for a text `s`. -/
def isText (s : String) : Value → Bool
  | str t => t == s
  | _ => false

def text? : Value → Option String
  | str s => some s
  | _ => none

def hashable : Value → Bool
  | arr _ | obj _ => false
  | _ => true

/-- The integer a number or a boolean equals. -/
def whole? : Value → Option Int
  | bool b => some (if b then 1 else 0)
  | int i => some i
  | float f => f.whole
  | _ => none

mutual

/-- Python's `==`: numbers by value, dictionaries by their keys and what is at
each, whatever the order. -/
def pyEq : Value → Value → Bool
  | null, null => true
  | str s, str t => s == t
  | arr xs, arr ys => eqItems xs ys
  | obj fs, obj gs => eqFields fs gs && gs.all (fun g => fs.any (fun f => f.1 == g.1))
  | float f, float g =>
    match f.whole, g.whole with
    | some i, some j => i == j
    | none, none => f.text == g.text
    | _, _ => false
  | bool b, w => w.whole? == some (if b then 1 else 0)
  | int i, w => w.whole? == some i
  | float f, w => f.whole.isSome && w.whole? == f.whole
  | _, _ => false

def eqItems : List Value → List Value → Bool
  | [], [] => true
  | x :: xs, y :: ys => pyEq x y && eqItems xs ys
  | _, _ => false

def eqFields : List (String × Value) → List (String × Value) → Bool
  | [], _ => true
  | (name, v) :: fs, gs =>
    (match gs.find? (fun g => g.1 == name) with
      | some g => pyEq v g.2
      | none => false) && eqFields fs gs

end

/-- A character inside the quotes of a `repr`; other than the ASCII controls
every character is taken as printable. -/
def reprChar (q c : Char) : List Char :=
  if c == q || c == '\\' then ['\\', c]
  else if c == '\n' then ['\\', 'n']
  else if c == '\r' then ['\\', 'r']
  else if c == '\t' then ['\\', 't']
  else if c.toNat < 32 || c.toNat == 127 then
    ['\\', 'x', Nat.digitChar (c.toNat / 16), Nat.digitChar (c.toNat % 16)]
  else [c]

def reprText (s : String) : String :=
  let q := if s.toList.contains '\'' && !s.toList.contains '"' then '"' else '\''
  String.ofList (q :: (s.toList.flatMap (reprChar q) ++ [q]))

mutual

/-- `repr(v)`. -/
def repr : Value → String
  | null => "None"
  | bool b => if b then "True" else "False"
  | int i => toString i
  | float f => f.text
  | str s => reprText s
  | arr items => "[" ++ String.intercalate ", " (reprItems items) ++ "]"
  | obj fields => "\x7b" ++ String.intercalate ", " (reprFields fields) ++ "\x7d"

def reprItems : List Value → List String
  | [] => []
  | v :: rest => repr v :: reprItems rest

def reprFields : List (String × Value) → List String
  | [] => []
  | (name, v) :: rest => (reprText name ++ ": " ++ repr v) :: reprFields rest

end

/-- `str(v)`. -/
def toText : Value → String
  | str s => s
  | v => repr v

/-- `v or w`. -/
def orElse (v w : Value) : Value := if v.truthy then v else w

@[simp] theorem truthy_str (s : String) : (str s).truthy = (s != "") := rfl

theorem orElse_truthy {v : Value} (h : v.truthy = true) (w : Value) : v.orElse w = v := if_pos h

theorem orElse_falsy {v : Value} (h : ¬v.truthy = true) (w : Value) : v.orElse w = w := if_neg h

theorem truthy_orElse (v : Value) {w : Value} (h : w.truthy = true) : (v.orElse w).truthy = true := by
  unfold orElse
  split
  · assumption
  · exact h

@[simp] theorem toText_str (s : String) : (str s).toText = s := rfl

@[simp] theorem isText_str (s t : String) : (str s).isText t = (s == t) := rfl

@[simp] theorem pyEq_str (s t : String) : (str s).pyEq (str t) = (s == t) := by
  rw [pyEq]

theorem toText_ne_empty {v : Value} (h : v.truthy = true) : v.toText ≠ "" := by
  cases v with
  | null => simp [truthy] at h
  | bool b => cases b <;> simp [toText, repr]
  | int i =>
    change toString i ≠ ""
    rw [Int.toString_eq_repr, Int.repr_eq_if]
    split <;> simp [Nat.repr_ne_empty]
  | float f => exact f.nonblank
  | str s => simpa [truthy] using h
  | arr items => simp [toText, repr]
  | obj fields => simp [toText, repr]

theorem isText_iff {v : Value} {s : String} : v.isText s = true ↔ v = str s := by
  cases v <;> simp [isText]

end Value

namespace Dict

open Value

def find (d : Dict) (name : String) : Option Value :=
  (d.find? (fun f => f.1 == name)).map Prod.snd

/-- `d.get(name)`. -/
def get (d : Dict) (name : String) : Value :=
  (d.find name).getD null

/-- `name in d`. -/
def has (d : Dict) (name : String) : Bool :=
  (d.find name).isSome

/-- `d[name] = v`. -/
def put : Dict → String → Value → Dict
  | [], name, v => [(name, v)]
  | f :: rest, name, v => if f.1 == name then (f.1, v) :: rest else f :: put rest name v

/-- `d.pop(name, None)`. -/
def pop : Dict → String → Dict
  | [], _ => []
  | f :: rest, name => if f.1 == name then rest else f :: pop rest name

/-- `d.update(e)`. -/
def update (d e : Dict) : Dict :=
  e.foldl (fun d f => put d f.1 f.2) d

variable {d : Dict} {name other : String} {v w : Value}

@[simp] theorem find_put_self : (put d name v).find name = some v := by
  induction d with
  | nil => simp [put, find]
  | cons f rest ih =>
    by_cases h : f.1 = name
    · simp [put, find, h]
    · simpa [put, find, h] using ih

theorem find_put_other (h : other ≠ name) : (put d name v).find other = d.find other := by
  induction d with
  | nil => simp [put, find, Ne.symm h]
  | cons f rest ih =>
    by_cases hf : f.1 = name
    · simp [put, find, hf, Ne.symm h]
    · have hput : put (f :: rest) name v = f :: put rest name v := by simp [put, hf]
      rw [hput]
      by_cases ho : f.1 = other
      · simp [find, ho]
      · simpa [find, ho] using ih

@[simp] theorem get_put_self : (put d name v).get name = v := by
  simp [get]

theorem get_put_other (h : other ≠ name) : (put d name v).get other = d.get other := by
  simp [get, find_put_other h]

theorem get_update_other {e : Dict} (h : ∀ f ∈ e, f.1 ≠ name) : (update d e).get name = d.get name := by
  induction e generalizing d with
  | nil => rfl
  | cons f rest ih =>
    have hrest := ih (d := put d f.1 f.2) (fun g hg => h g (List.mem_cons_of_mem f hg))
    exact hrest.trans (get_put_other (h f List.mem_cons_self).symm)

theorem put_put : put (put d name v) name w = put d name w := by
  induction d with
  | nil => simp [put]
  | cons f rest ih =>
    by_cases h : f.1 = name
    · simp [put, h]
    · simpa [put, h] using ih

/-- Writing back what is there changes nothing. -/
theorem put_self (h : d.find name = some v) : put d name v = d := by
  induction d with
  | nil => simp [find] at h
  | cons f rest ih =>
    by_cases hf : f.1 = name
    · have hv : f.2 = v := by simpa [find, hf] using h
      obtain ⟨k, u⟩ := f
      simp only at hf hv
      simp [put, hf, hv]
    · have hrest : find rest name = some v := by simpa [find, hf] using h
      simp [put, hf, ih hrest]

/-- A key written where there was none, and removed again. -/
theorem pop_put (h : d.find name = none) : pop (put d name v) name = d := by
  induction d with
  | nil => simp [put, pop]
  | cons f rest ih =>
    by_cases hf : f.1 = name
    · simp [find, hf] at h
    · have hrest : find rest name = none := by simpa [find, hf] using h
      simp [put, pop, hf, ih hrest]

theorem pop_absent (h : d.find name = none) : pop d name = d := by
  induction d with
  | nil => rfl
  | cons f rest ih =>
    by_cases hf : f.1 = name
    · simp [find, hf] at h
    · have hrest : find rest name = none := by simpa [find, hf] using h
      simp [pop, hf, ih hrest]

theorem keys_put (h : d.has name = true) : (put d name v).map Prod.fst = d.map Prod.fst := by
  induction d with
  | nil => simp [has, find] at h
  | cons f rest ih =>
    by_cases hf : f.1 = name
    · simp [put, hf]
    · have hrest : has rest name = true := by simpa [has, find, hf] using h
      simp [put, hf, ih hrest]

theorem keys_put_new (h : d.has name = false) : (put d name v).map Prod.fst = d.map Prod.fst ++ [name] := by
  induction d with
  | nil => rfl
  | cons f rest ih =>
    by_cases hf : f.1 = name
    · simp [has, find, hf] at h
    · have hrest : has rest name = false := by simpa [has, find, hf] using h
      simp [put, hf, ih hrest]

theorem mem_put {f : String × Value} (h : f ∈ put d name v) : f = (name, v) ∨ f ∈ d := by
  induction d with
  | nil => exact .inl (List.mem_singleton.mp h)
  | cons g rest ih =>
    by_cases hg : g.1 = name
    · rw [put, if_pos (beq_iff_eq.mpr hg)] at h
      rcases List.mem_cons.mp h with rfl | h
      · exact .inl (by rw [hg])
      · exact .inr (List.mem_cons_of_mem _ h)
    · rw [put, if_neg (fun heq => hg (beq_iff_eq.mp heq))] at h
      rcases List.mem_cons.mp h with rfl | h
      · exact .inr List.mem_cons_self
      · exact (ih h).imp_right (List.mem_cons_of_mem _)

/-- Where each key stands once, a field is what its key finds. -/
theorem find_of_mem (hnodup : (d.map Prod.fst).Nodup) {f : String × Value} (hf : f ∈ d) : d.find f.1 = some f.2 := by
  induction d with
  | nil => exact absurd hf List.not_mem_nil
  | cons g rest ih =>
    rw [List.map_cons, List.nodup_cons] at hnodup
    rcases List.mem_cons.mp hf with rfl | hf
    · simp [find]
    · have hne : g.1 ≠ f.1 := fun heq => hnodup.1 (heq ▸ List.mem_map_of_mem hf)
      simpa [find, hne] using ih hnodup.2 hf

theorem has_iff {d : Dict} {name : String} : d.has name = true ↔ ∃ f ∈ d, f.1 = name := by
  simp [has, find, Option.isSome_map, List.find?_isSome]

/-- What equals a dictionary is one, with the same keys. -/
theorem pyEq_obj {v : Value} {e : Dict} (h : v.pyEq (.obj e) = true) :
    ∃ d : Dict, v = .obj d ∧ ∀ name, has e name = true → has d name = true := by
  cases v with
  | obj d =>
    rw [pyEq, Bool.and_eq_true, List.all_eq_true] at h
    refine ⟨d, rfl, fun name hname => ?_⟩
    obtain ⟨g, hg, rfl⟩ := has_iff.mp hname
    obtain ⟨f, hf, heq⟩ := List.any_eq_true.mp (h.2 g hg)
    exact has_iff.mpr ⟨f, hf, beq_iff_eq.mp heq⟩
  | float f =>
    cases hwhole : f.whole <;> simp [pyEq, whole?, hwhole] at h
  | _ => simp [pyEq, whole?] at h

end Dict

/-- What a dictionary has under a name. -/
def field (v : Value) (name : String) : Value :=
  match v with
  | .obj d => Dict.get d name
  | _ => .null

def hasField (v : Value) (name : String) : Bool :=
  match v with
  | .obj d => Dict.has d name
  | _ => false

end AItelier.Lib
