import AItelier.Lib.Json
import AItelier.Lib.Value

namespace AItelier.Lib

namespace Value

def unicode4 (n : Nat) : List Char :=
  ['\\', 'u', Json.hexDigit (n / 4096 % 16), Json.hexDigit (n / 256 % 16), Json.hexDigit (n / 16 % 16),
    Json.hexDigit (n % 16)]

/-- `ensure_ascii`: a character beyond the basic plane is written as two surrogates. -/
def asciiChar (c : Char) : List Char :=
  if c.toNat < 127 then Json.escapeChar c
  else if c.toNat < 0x10000 then unicode4 c.toNat
  else unicode4 (0xD800 + (c.toNat - 0x10000) / 1024) ++ unicode4 (0xDC00 + (c.toNat - 0x10000) % 1024)

def quotedAscii (s : String) : List Char :=
  '"' :: (s.toList.flatMap asciiChar ++ ['"'])

mutual

def render : Value → List Char
  | .null => "null".toList
  | .bool b => if b then "true".toList else "false".toList
  | .int i => (toString i).toList
  | .float f => f.text.toList
  | .str s => quotedAscii s
  | .arr items => '[' :: (Json.joinComma (renderItems items) ++ [']'])
  | .obj fields =>
    let sorted := (renderFields fields).insertionSort (fun a b => a.1.toList ≤ b.1.toList)
    '\x7b' :: (Json.joinComma (sorted.map (fun f => quotedAscii f.1 ++ ':' :: f.2)) ++ ['\x7d'])

def renderItems : List Value → List (List Char)
  | [] => []
  | v :: rest => render v :: renderItems rest

def renderFields : List (String × Value) → List (String × List Char)
  | [] => []
  | (name, v) :: rest => (name, render v) :: renderFields rest

end

def dumps (v : Value) : String := String.ofList v.render

def numberChar (c : Char) : Bool := c.isDigit || c == '-' || c == '+' || c == '.' || c == 'e'

/-- The text of a finite float: it has a point or an exponent. -/
def FloatText (s : String) : Prop := (∀ c ∈ s.toList, numberChar c = true) ∧ ('.' ∈ s.toList ∨ 'e' ∈ s.toList)

mutual

/-- A value as Python has it: every dictionary has each of its keys once, and every
float is finite. -/
def Plain : Value → Prop
  | .float f => FloatText f.text
  | .arr items => PlainItems items
  | .obj fields => (fields.map Prod.fst).Nodup ∧ PlainFields fields
  | _ => True

def PlainItems : List Value → Prop
  | [] => True
  | v :: rest => Plain v ∧ PlainItems rest

def PlainFields : List (String × Value) → Prop
  | [] => True
  | f :: rest => Plain f.2 ∧ PlainFields rest

end

variable {items : List Value} {v : Value} {name : String} {d e : Dict}

theorem plainItems_iff : PlainItems items ↔ ∀ v ∈ items, v.Plain := by
  induction items with
  | nil => simp [PlainItems]
  | cons v items ih => simp [PlainItems, ih]

theorem plainFields_iff {fields : Dict} : PlainFields fields ↔ ∀ f ∈ fields, f.2.Plain := by
  induction fields with
  | nil => simp [PlainFields]
  | cons f fields ih => simp [PlainFields, ih]

theorem plain_obj {fields : Dict} : Plain (.obj fields) ↔ (fields.map Prod.fst).Nodup ∧ ∀ f ∈ fields, f.2.Plain := by
  rw [Plain, plainFields_iff]

theorem plain_arr : Plain (.arr items) ↔ ∀ v ∈ items, v.Plain := by
  rw [Plain, plainItems_iff]

theorem nodup_put {d : Dict} (hd : (d.map Prod.fst).Nodup) (name : String) (v : Value) :
    ((d.put name v).map Prod.fst).Nodup := by
  by_cases h : d.has name = true
  · rw [Dict.keys_put h]
    exact hd
  · rw [Dict.keys_put_new (by simpa using h)]
    refine List.nodup_append.mpr ⟨hd, List.pairwise_singleton _ name, fun a ha b hb heq => ?_⟩
    rw [List.mem_singleton.mp hb] at heq
    obtain ⟨f, hf, rfl⟩ := List.mem_map.mp ha
    exact h (Dict.has_iff.mpr ⟨f, hf, heq⟩)

theorem plain_put {d : Dict} (hd : Plain (.obj d)) (hv : v.Plain) :
    Plain (.obj (d.put name v)) := by
  rw [plain_obj] at hd ⊢
  refine ⟨nodup_put hd.1 name v, fun f hf => ?_⟩
  rcases Dict.mem_put hf with rfl | hf
  · exact hv
  · exact hd.2 f hf

theorem plain_get {d : Dict} (hd : Plain (.obj d)) (name : String) : (d.get name).Plain := by
  rw [plain_obj] at hd
  rw [Dict.get, Dict.find]
  cases h : List.find? (fun f : String × Value => f.1 == name) d with
  | none => trivial
  | some f => exact hd.2 f (List.mem_of_find?_eq_some h)

theorem eqFields_iff {fs gs : Dict} :
    eqFields fs gs = true ↔ ∀ f ∈ fs, ∃ w, Dict.find gs f.1 = some w ∧ f.2.pyEq w = true := by
  induction fs with
  | nil => simp [eqFields]
  | cons f fs ih =>
    obtain ⟨name, v⟩ := f
    rw [eqFields, Bool.and_eq_true, ih, List.forall_mem_cons]
    apply and_congr_left'
    rw [Dict.find]
    cases gs.find? (fun g => g.1 == name) with
    | none => simp
    | some g => simp

theorem find?_key {fs : Dict} (hnodup : (fs.map Prod.fst).Nodup) {f : String × Value} (hf : f ∈ fs) :
    fs.find? (fun g => g.1 == f.1) = some f := by
  obtain ⟨name, v⟩ := f
  have hv : Dict.find fs name = some v := Dict.find_of_mem hnodup hf
  obtain ⟨g, hg, rfl⟩ := Option.map_eq_some_iff.mp hv
  have hname := List.find?_some hg
  rw [hg, ← beq_iff_eq.mp hname]

mutual

/-- A value equals itself. -/
theorem pyEq_refl : ∀ v : Value, v.Plain → v.pyEq v = true
  | .null, _ => by rw [pyEq]
  | .bool b, _ => by simp [pyEq, whole?]
  | .int i, _ => by simp [pyEq, whole?]
  | .float f, _ => by
    rw [pyEq]
    cases f.whole <;> simp
  | .str s, _ => by simp
  | .arr items, h => by
    rw [pyEq]
    exact eqItems_refl items (by rwa [Plain] at h)
  | .obj fields, h => by
    rw [Plain] at h
    rw [pyEq, Bool.and_eq_true]
    refine ⟨eqFields_self fields fields h.2 (fun f hf => ?_), List.all_eq_true.mpr (fun f hf => ?_)⟩
    · exact find?_key h.1 hf
    · exact List.any_eq_true.mpr ⟨f, hf, beq_self_eq_true f.1⟩

theorem eqItems_refl : ∀ items : List Value, PlainItems items → eqItems items items = true
  | [], _ => by rw [eqItems]
  | v :: rest, h => by
    rw [PlainItems] at h
    rw [eqItems, pyEq_refl v h.1, eqItems_refl rest h.2]
    rfl

theorem eqFields_self : ∀ fs gs : Dict, PlainFields fs →
    (∀ f ∈ fs, gs.find? (fun g => g.1 == f.1) = some f) → eqFields fs gs = true
  | [], _, _, _ => by rw [eqFields]
  | (name, v) :: rest, gs, h, hfind => by
    rw [PlainFields] at h
    have hv := hfind (name, v) List.mem_cons_self
    rw [eqFields, hv]
    change (pyEq v v && eqFields rest gs) = true
    rw [pyEq_refl v h.1, eqFields_self rest gs h.2 (fun f hf => hfind f (List.mem_cons_of_mem _ hf))]
    rfl

end

theorem pyEq_text {s : String} : v.pyEq (.str s) = true ↔ v = .str s := by
  cases v with
  | str t => simp
  | float f => cases h : f.whole <;> simp [pyEq, whole?, h]
  | _ => simp [pyEq, whole?]

theorem text_pyEq {s : String} : (str s).pyEq v = true ↔ v = .str s := by
  cases v with
  | str t =>
    rw [pyEq_str, beq_iff_eq, str.injEq]
    exact eq_comm
  | _ => simp [pyEq]

theorem pyEq_items (h : v.pyEq (.arr items) = true) :
    ∃ vs, v = .arr vs ∧ eqItems vs items = true := by
  cases v with
  | arr vs => exact ⟨vs, rfl, by rwa [pyEq] at h⟩
  | float f => cases hw : f.whole <;> simp [pyEq, whole?, hw] at h
  | _ => simp [pyEq, whole?] at h

theorem find_pyEq (h : (obj d).pyEq (.obj e) = true) (hv : d.find name = some v) :
    ∃ w, e.find name = some w ∧ v.pyEq w = true := by
  rw [pyEq, Bool.and_eq_true, eqFields_iff] at h
  obtain ⟨f, hf, rfl⟩ := Option.map_eq_some_iff.mp hv
  obtain ⟨w, hw, heq⟩ := h.1 f (List.mem_of_find?_eq_some hf)
  have hname := List.find?_some hf
  exact ⟨w, beq_iff_eq.mp hname ▸ hw, heq⟩

theorem find_none_pyEq (h : (obj d).pyEq (.obj e) = true) (hv : d.find name = none) :
    e.find name = none := by
  rw [pyEq, Bool.and_eq_true, List.all_eq_true] at h
  rw [Dict.find, Option.map_eq_none_iff, List.find?_eq_none]
  intro g hg hname
  obtain ⟨f, hf, hfg⟩ := List.any_eq_true.mp (h.2 g hg)
  rw [Dict.find, Option.map_eq_none_iff, List.find?_eq_none] at hv
  exact hv f hf (by rw [beq_iff_eq.mp hfg]; exact hname)

/-- Equal dictionaries have equal values at each key. -/
theorem get_pyEq (h : (obj d).pyEq (.obj e) = true) (name : String) :
    (d.get name).pyEq (e.get name) = true := by
  cases hv : d.find name with
  | none => rw [Dict.get, Dict.get, hv, find_none_pyEq h hv]; rfl
  | some v =>
    obtain ⟨w, hw, heq⟩ := find_pyEq h hv
    rw [Dict.get, Dict.get, hv, hw]
    exact heq

/-- A text on one side of equal dictionaries stands on the other. -/
theorem get_text_iff (h : (obj d).pyEq (.obj e) = true) {name s : String} :
    d.get name = .str s ↔ e.get name = .str s := by
  constructor
  · intro hd
    exact text_pyEq.mp (hd ▸ get_pyEq h name)
  · intro he
    exact pyEq_text.mp (he ▸ get_pyEq h name)

theorem null_pyEq : null.pyEq v = true ↔ v = .null := by
  cases v <;> simp [pyEq]

end Value

end AItelier.Lib
