import AItelier.Lib.Folder
import AItelier.Novel.Ledger

namespace AItelier.Novel.Ledger

open AItelier.Lib
open AItelier.Lib.JsonDoc (Readable)

theorem splitlines_line {s : Text} (h : ∀ c ∈ s, isLineEnd c = false) (current rest : Text) :
    splitlines current (s ++ '\n' :: rest) = (current.reverse ++ s) :: splitlines [] rest := by
  induction s generalizing current with
  | nil =>
    cases current with
    | nil => rfl
    | cons d current =>
      rw [List.nil_append, splitlines, if_pos (by decide), List.append_nil]
  | cons c s ih =>
    have hc := h c List.mem_cons_self
    have hrest := ih (fun d hd => h d (List.mem_cons_of_mem c hd)) (c :: current)
    rw [List.reverse_cons, List.append_assoc] at hrest
    rw [List.cons_append, splitlines, if_neg (by simp [hc]), hrest]
    rfl

theorem splitlines_joined {lines : List Text} (h : ∀ l ∈ lines, ∀ c ∈ l, isLineEnd c = false) :
    splitlines [] (lines.flatMap (fun l => l ++ ['\n'])) = lines := by
  induction lines with
  | nil => rfl
  | cons l lines ih =>
    rw [List.flatMap_cons, List.append_assoc, List.singleton_append, splitlines_line (h l List.mem_cons_self),
      ih (fun m hm => h m (List.mem_cons_of_mem l hm))]
    rfl

/-- The texts of a value hold no character that ends a line and is not escaped: U+0085, U+2028
or U+2029. -/
def OneLine (v : Value) : Prop := JsonDoc.Characters (fun c => 32 ≤ c.toNat → isLineEnd c = false) v

theorem oneLine_text {s : String} (h : s.toList.all (fun c => decide (32 ≤ c.toNat → isLineEnd c = false)) = true) :
    OneLine (.str s) := by
  intro c hc
  exact of_decide_eq_true (List.all_eq_true.mp h c hc)

theorem oneLine_obj {d : Dict} : OneLine (.obj d) ↔ ∀ f ∈ d, OneLine (.str f.1) ∧ OneLine f.2 :=
  JsonDoc.charactersFields_iff

/-- Text that JSON lines and YAML give back. -/
def Legible (float : String → PyFloat) (v : Value) : Prop := Readable float v ∧ OneLine v

theorem legible_obj {float : String → PyFloat} {d : Dict} : Legible float (.obj d) ↔
    (d.map Prod.fst).Nodup ∧ ∀ f ∈ d, OneLine (.str f.1) ∧ Legible float f.2 := by
  rw [Legible, JsonDoc.readable_obj, oneLine_obj]
  constructor
  · rintro ⟨⟨hkeys, hread⟩, hline⟩
    exact ⟨hkeys, fun f hf => ⟨(hline f hf).1, hread f hf, (hline f hf).2⟩⟩
  · rintro ⟨hkeys, h⟩
    exact ⟨⟨hkeys, fun f hf => (h f hf).2.1⟩, fun f hf => ⟨(h f hf).1, (h f hf).2.2⟩⟩

theorem printable_same {c : Char} (h : JsonDoc.Printable c) : isLineEnd c = false := by
  have hn : c.toNat ≠ 0x85 ∧ c.toNat ≠ 0x2028 ∧ c.toNat ≠ 0x2029 := by
    obtain ⟨hlow, hhigh⟩ := h
    omega
  obtain ⟨hlow, hhigh⟩ := h
  simp only [isLineEnd, Bool.or_eq_false_iff, Bool.and_eq_false_iff, decide_eq_false_iff_not]
  omega

variable {row : Dict} {kind name : String} {ws : Workspace} {card : Dict} {h : List Write} {d : Dict}
   {used : List (String × String)}

theorem row_unbroken {float : String → PyFloat} (h : Legible float (.obj row)) :
    ∀ c ∈ JsonDoc.dumps JsonDoc.oneLine (.obj row), isLineEnd c = false :=
  JsonDoc.oneLine_mem (fun _ => printable_same) (.obj row) 0 h.1 h.2

theorem row_notBlank (row : Dict) : notBlank (JsonDoc.dumps JsonDoc.oneLine (.obj row)) = true := by
  cases row <;> rfl

/-- The rows of a file, each on its line, are read back in order. -/
theorem read_rows {host : Host} {rows : List Dict}
    (h : ∀ row ∈ rows, Legible host.float (.obj row)) :
    ((splitlines [] (universal (rows.flatMap line))).filter notBlank).mapM
      (fun l => orElse (JsonDoc.loads host.float l) "JSONDecodeError") = .ok (rows.map .obj) := by
  let lines := rows.map (fun row => JsonDoc.dumps JsonDoc.oneLine (.obj row))
  have hlines : ∀ l ∈ lines, (∀ c ∈ l, isLineEnd c = false) ∧ notBlank l = true := by
    intro l hl
    obtain ⟨row, hrow, rfl⟩ := List.mem_map.mp hl
    exact ⟨row_unbroken (h row hrow), row_notBlank row⟩
  have hfile : rows.flatMap line = lines.flatMap (fun l => l ++ ['\n']) := by
    rw [List.flatMap_map]
    rfl
  have hno : ∀ c ∈ lines.flatMap (fun l => l ++ ['\n']), c ≠ '\r' := by
    intro c hc
    obtain ⟨l, hl, hc⟩ := List.mem_flatMap.mp hc
    rcases List.mem_append.mp hc with hc | hc
    · rintro rfl
      exact absurd ((hlines l hl).1 _ hc) (by decide)
    · rw [List.mem_singleton.mp hc]
      decide
  rw [hfile, universal_eq_self (fun h => hno _ h rfl), splitlines_joined (fun l hl => (hlines l hl).1),
    List.filter_eq_self.mpr (fun l hl => (hlines l hl).2), List.mapM_map]
  clear hlines hfile hno
  clear lines
  induction rows with
  | nil => rfl
  | cons row rows ih =>
    have hload := JsonDoc.loads_dumps JsonDoc.oneLine (h row List.mem_cons_self).1 (List.forall_mem_nil _)
    rw [List.append_nil] at hload
    simp only [List.mapM_cons, bind_ok, pure_ok, Function.comp]
    exact ⟨.obj row, by rw [hload]; rfl, rows.map .obj, ih (fun r hr => h r (List.mem_cons_of_mem row hr)), rfl⟩

theorem readLedger_rows {host : Host} {rows : List Dict} (hkind : kind ∈ LEDGER_KINDS)
    (hfile : (ws.ledger.get (kind, safeFilename name)).getD [] = rows.flatMap line)
    (h : ∀ row ∈ rows, Legible host.float (.obj row)) :
    readLedger host ws kind name = .ok (rows.map .obj) := by
  have hrows := read_rows h
  rw [readLedger, ensure_bind hkind]
  cases hget : ws.ledger.get (kind, safeFilename name) with
  | none =>
    rw [hget] at hfile
    rw [← hfile] at hrows
    exact hrows
  | some text =>
    rw [hget] at hfile
    rw [← hfile] at hrows
    exact hrows

/-- A card file as it is written: the card's name is one whose file it is. -/
def CardFile (host : Host) (file : String × Text) : Prop :=
  ∃ card, file.2 = host.dumpYaml (.obj card) ∧ Legible host.float (.obj card) ∧
    safeFilename (cardName file.1 card) = file.1 ∧ OneLine (.str (cardName file.1 card))

/-- The card a name has among files. -/
def held (host : Host) (files : Entries String Text) (name : String) : Option Dict :=
  (files.get (safeFilename name)).bind (fun text =>
    match loadCard host text with
    | .ok card => if cardName (safeFilename name) card = name then some (setdefault card "name" (.str name)) else none
    | .error _ => none)

/-- YAML gives back what it was given, where no text holds a line break that is left as it is. -/
def YamlRoundTrip (host : Host) : Prop := ∀ v, Legible host.float v → host.loadYaml (host.dumpYaml v) = .ok v

theorem loadCard_dump {host : Host} (hyaml : YamlRoundTrip host) (h : Legible host.float (.obj card)) :
    loadCard host (host.dumpYaml (.obj card)) = .ok card := by
  rw [loadCard, hyaml _ h]
  rfl

/-- The loop over the files holds for each name what its file does, or what it held before. -/
theorem load_files {host : Host} (hyaml : YamlRoundTrip host) {files : Entries String Text}
    (hfiles : ∀ file ∈ files, CardFile host file) (hd : (files.map Prod.fst).Nodup) (out : Entries String Dict) :
    ∃ cards, files.foldlM (fun (out : Entries String Dict) file => do
        let card ← loadCard host file.2
        let name := cardName file.1 card
        return out.set name (setdefault card "name" (.str name))) out = .ok cards ∧
      ∀ name, cards.get name = (held host files name).or (out.get name) := by
  induction files generalizing out with
  | nil => exact ⟨out, rfl, fun _ => rfl⟩
  | cons file files ih =>
    obtain ⟨stem, text⟩ := file
    obtain ⟨hnew, hd⟩ := List.nodup_cons.mp hd
    obtain ⟨card, htext, hread, hname, -⟩ := hfiles (stem, text) List.mem_cons_self
    obtain ⟨cards, hcards, hget⟩ := ih (fun f hf => hfiles f (List.mem_cons_of_mem _ hf)) hd
      (out.set (cardName stem card) (setdefault card "name" (.str (cardName stem card))))
    have hload : loadCard host text = .ok card := by
      have htext' : text = host.dumpYaml (.obj card) := htext
      rw [htext', loadCard_dump hyaml hread]
    refine ⟨cards, ?_, fun name => ?_⟩
    · rw [List.foldlM_cons, hload]
      exact hcards
    · have hgone : ∀ other, safeFilename other = stem → held host files other = none := by
        intro other hother
        have hnone : Entries.get files stem = none := Entries.get_eq_none hnew
        rw [held, hother, hnone]
        rfl
      have hcons : held host ((stem, text) :: files) name = if safeFilename name = stem then
          (if cardName stem card = name then some (setdefault card "name" (.str name)) else none)
          else held host files name := by
        rw [held, Entries.get_cons]
        by_cases hstem : stem = safeFilename name
        · rw [if_pos hstem, if_pos hstem.symm, Option.bind_some, ← hstem, hload]
        · rw [if_neg hstem, if_neg (Ne.symm hstem)]
          rfl
      rw [hget, Entries.get_set, hcons]
      by_cases hsame : cardName stem card = name
      · have hstem : safeFilename name = stem := hsame ▸ hname
        rw [hgone name hstem, if_pos hstem, if_pos hsame, if_pos hsame, hsame]
        rfl
      · rw [if_neg hsame, if_neg hsame]
        by_cases hstem : safeFilename name = stem
        · rw [hgone name hstem, if_pos hstem]
        · rw [if_neg hstem]

theorem get_perm {files files' : Entries String Text} (h : files.Perm files') (hd : (files.map Prod.fst).Nodup)
    (name : String) : files.get name = files'.get name := by
  have hd' : (files'.map Prod.fst).Nodup := (h.map Prod.fst).nodup_iff.mp hd
  cases hget : files.get name with
  | some text => exact (Entries.get_of_mem hd' (h.mem_iff.mp (Entries.mem_of_get hget))).symm
  | none =>
    cases hget' : files'.get name with
    | none => rfl
    | some text =>
      rw [Entries.get_of_mem hd (h.mem_iff.mpr (Entries.mem_of_get hget'))] at hget
      exact absurd hget (by simp)

theorem loadCharacters_held {host : Host} (hyaml : YamlRoundTrip host)
    (hfiles : ∀ file ∈ ws.cards, CardFile host file) (hd : (ws.cards.map Prod.fst).Nodup) :
    ∃ cards, loadCharacters host ws = .ok cards ∧ ∀ name, cards.get name = held host ws.cards name := by
  have hperm := List.perm_insertionSort (fun a b : String × Text => (a.1 ++ ".yaml").toList ≤
      (b.1 ++ ".yaml").toList) ws.cards
  have hd' := (hperm.map Prod.fst).nodup_iff.mpr hd
  obtain ⟨cards, hcards, hget⟩ := load_files hyaml (fun f hf => hfiles f (hperm.mem_iff.mp hf)) hd' []
  refine ⟨cards, hcards, fun name => ?_⟩
  rw [hget, held, held, get_perm hperm hd', Entries.get_nil, Option.or_none]

/-- The rows of the entities of a kind whose names are picked. -/
def rowsWhere (kind : String) (p : String → Bool) (h : List Write) : List Dict :=
  h.filterMap (fun w => match w with
    | .row k n row => if k == kind && p n then some row else none
    | _ => none)

def cardsWhere (p : String → Bool) (h : List Write) : List Dict :=
  h.filterMap (fun w => match w with
    | .card n card => if p n then some card else none
    | _ => none)

def inFile (file name : String) : Bool := safeFilename name == file

theorem rowsWhere_row (kind : String) (p : String → Bool) (k n : String) (row : Dict) (h : List Write) :
    rowsWhere kind p (.row k n row :: h) = (if k == kind && p n then [row] else []) ++ rowsWhere kind p h := by
  simp only [rowsWhere, List.filterMap_cons]
  cases k == kind && p n <;> rfl

theorem cardsWhere_card (p : String → Bool) (n : String) (card : Dict) (h : List Write) :
    cardsWhere p (.card n card :: h) = (if p n then [card] else []) ++ cardsWhere p h := by
  simp only [cardsWhere, List.filterMap_cons]
  cases p n <;> rfl

theorem ledger_history (host : Host) (h : List Write) (ws : Workspace) (kind file : String) :
    ((h.foldl (Workspace.put host) ws).ledger.get (kind, file)).getD [] =
      (ws.ledger.get (kind, file)).getD [] ++ (rowsWhere kind (inFile file) h).flatMap line := by
  induction h generalizing ws with
  | nil => simp [rowsWhere]
  | cons w h ih =>
    rw [List.foldl_cons, ih]
    cases w with
    | row k n row =>
      rw [Workspace.put, Entries.get_set, rowsWhere_row]
      by_cases hsame : k = kind ∧ safeFilename n = file
      · obtain ⟨rfl, rfl⟩ := hsame
        simp [inFile]
      · have hne : (k, safeFilename n) ≠ (kind, file) := fun heq => hsame (Prod.mk.inj heq)
        have hout : (k == kind && inFile file n) = false := by
          rw [Bool.eq_false_iff, inFile]
          exact fun heq => hsame (by simpa using heq)
        rw [if_neg hne, hout]
        rfl
    | card n card => rfl
    | world world => rfl

theorem cards_history (host : Host) (h : List Write) (ws : Workspace) (file : String) :
    (h.foldl (Workspace.put host) ws).cards.get file =
      (((cardsWhere (inFile file) h).getLast?).map (fun card => host.dumpYaml (.obj card))).or (ws.cards.get file) := by
  induction h generalizing ws with
  | nil => rfl
  | cons w h ih =>
    rw [List.foldl_cons, ih]
    cases w with
    | card n card =>
      rw [Workspace.put, Entries.get_set, cardsWhere_card, List.getLast?_append]
      by_cases hsame : safeFilename n = file
      · have hin : inFile file n = true := beq_iff_eq.mpr hsame
        rw [hin, if_pos hsame]
        cases (cardsWhere (inFile file) h).getLast? <;> rfl
      · have hout : inFile file n = false := beq_eq_false_iff_ne.mpr hsame
        rw [hout, if_neg hsame]
        cases (cardsWhere (inFile file) h).getLast? <;> rfl
    | row k n row => rfl
    | world world => rfl

theorem cards_nodup (host : Host) (h : List Write) (hd : (ws.cards.map Prod.fst).Nodup) :
    ((h.foldl (Workspace.put host) ws).cards.map Prod.fst).Nodup := by
  induction h generalizing ws with
  | nil => exact hd
  | cons w h ih =>
    rw [List.foldl_cons]
    cases w with
    | card n card => exact ih (Entries.nodup_set hd _ _)
    | row k n row => exact ih hd
    | world world => exact ih hd

/-- The entity a write is of. -/
def Write.entity : Write → Option (String × String)
  | .row kind name _ => some (kind, name)
  | .card name _ => some ("characters", name)
  | .world _ => none

def entities (h : List Write) : List (String × String) := h.filterMap Write.entity

/-- No other name of the kind has the file of this one. -/
def Apart (used : List (String × String)) (kind name : String) : Prop :=
  ∀ other, (kind, other) ∈ used → safeFilename other = safeFilename name → other = name

/-- No two names share a file. -/
def Separate (used : List (String × String)) : Prop := ∀ e ∈ used, Apart used e.1 e.2

/-- Of the writes of a history, each entity has its own: the rows of its ledger in order and
unchanged, the card last written for it, and files that no other name has. A name that shares
no file, written or not, reads its own rows. -/
structure Kept (host : Host) (ws : Workspace) (h : List Write) : Prop where
  rows : ∀ kind ∈ LEDGER_KINDS, ∀ name, Apart (entities h) kind name →
    readLedger host ws kind name = .ok ((rowsWhere kind (· == name) h).map .obj)
  cards : ∃ cards, loadCharacters host ws = .ok cards ∧ ∀ name card, (cardsWhere (· == name) h).getLast? = some card →
    cards.get name = some (setdefault card "name" (.str name))
  apart : Separate (entities h)

/-- A write that is read back: a row on one line, a card that names its own entity. -/
def Write.Clean (host : Host) : Write → Prop
  | .row _ _ fields => Legible host.float (.obj fields)
  | .card name fields =>
    Legible host.float (.obj fields) ∧ cardName (safeFilename name) fields = name ∧ OneLine (.str name)
  | .world _ => True

theorem row_entity {k n : String} (hw : .row k n row ∈ h) : (k, n) ∈ entities h :=
  List.mem_filterMap.mpr ⟨_, hw, rfl⟩

theorem card_entity {n : String} (hw : .card n card ∈ h) : ("characters", n) ∈ entities h :=
  List.mem_filterMap.mpr ⟨_, hw, rfl⟩

theorem rows_by_file (hs : Apart (entities h) kind name) :
    rowsWhere kind (inFile (safeFilename name)) h = rowsWhere kind (· == name) h := by
  refine List.filterMap_congr (fun w hw => ?_)
  cases w with
  | row k n row =>
    by_cases hk : k = kind
    · subst hk
      have hsame : inFile (safeFilename name) n = (n == name) := by
        rw [Bool.eq_iff_iff, inFile, beq_iff_eq, beq_iff_eq]
        exact ⟨fun heq => hs n (row_entity hw) heq, fun heq => heq ▸ rfl⟩
      simp only [hsame]
    · have hne : (k == kind) = false := beq_eq_false_iff_ne.mpr hk
      simp only [hne, Bool.false_and]
  | card n card => rfl
  | world world => rfl

theorem cards_by_file {name : String} (hs : Apart (entities h) "characters" name) :
    cardsWhere (inFile (safeFilename name)) h = cardsWhere (· == name) h := by
  refine List.filterMap_congr (fun w hw => ?_)
  cases w with
  | card n card =>
    have hsame : inFile (safeFilename name) n = (n == name) := by
      rw [Bool.eq_iff_iff, inFile, beq_iff_eq, beq_iff_eq]
      exact ⟨fun heq => hs n (card_entity hw) heq, fun heq => heq ▸ rfl⟩
    simp only [hsame]
  | row k n row => rfl
  | world world => rfl

theorem mem_rowsWhere {kind : String} {p : String → Bool} (hr : row ∈ rowsWhere kind p h) :
    ∃ name, p name = true ∧ .row kind name row ∈ h := by
  obtain ⟨w, hw, heq⟩ := List.mem_filterMap.mp hr
  cases w with
  | row k n r =>
    simp only [Option.ite_none_right_eq_some, Bool.and_eq_true, beq_iff_eq, Option.some.injEq] at heq
    obtain ⟨⟨rfl, hp⟩, rfl⟩ := heq
    exact ⟨n, hp, hw⟩
  | card n card => cases heq
  | world world => cases heq

theorem mem_cardsWhere {p : String → Bool} (hc : card ∈ cardsWhere p h) :
    ∃ name, p name = true ∧ .card name card ∈ h := by
  obtain ⟨w, hw, heq⟩ := List.mem_filterMap.mp hc
  cases w with
  | card n c =>
    simp only [Option.ite_none_right_eq_some, Option.some.injEq] at heq
    obtain ⟨hp, rfl⟩ := heq
    exact ⟨n, hp, hw⟩
  | row k n row => cases heq
  | world world => cases heq

/-- A workspace with no ledger and no card. -/
def Workspace.bare (world index : Option Text) : Workspace := ⟨[], [], world, index⟩

section History

variable {host : Host} {h : List Write} {world index : Option Text}

theorem card_of_file {file : String} {text : Text}
    (hget : (h.foldl (Workspace.put host) (.bare world index)).cards.get file = some text) :
    ∃ name card, .card name card ∈ h ∧ safeFilename name = file ∧ text = host.dumpYaml (.obj card) := by
  rw [cards_history, Workspace.bare, Entries.get_nil, Option.or_none, Option.map_eq_some_iff] at hget
  obtain ⟨card, hlast, rfl⟩ := hget
  obtain ⟨name, hp, hw⟩ := mem_cardsWhere (List.mem_of_getLast? hlast)
  exact ⟨name, card, hw, beq_iff_eq.mp hp, rfl⟩

theorem cardFiles (hclean : ∀ w ∈ h, w.Clean host) :
    ∀ file ∈ (h.foldl (Workspace.put host) (.bare world index)).cards, CardFile host file := by
  intro file hfile
  have hd : ((h.foldl (Workspace.put host) (.bare world index)).cards.map Prod.fst).Nodup :=
    cards_nodup host h List.nodup_nil
  obtain ⟨name, card, hw, hname, htext⟩ := card_of_file (Entries.get_of_mem hd hfile)
  obtain ⟨hread, hcard, hline⟩ := hclean _ hw
  refine ⟨card, htext, hread, ?_⟩
  rw [← hname, hcard]
  exact ⟨rfl, hline⟩

/-- A history of clean writes of names that are apart is kept. -/
theorem kept_of_clean (hyaml : YamlRoundTrip host) (hclean : ∀ w ∈ h, w.Clean host) (hs : Separate (entities h)) :
    Kept host (h.foldl (Workspace.put host) (.bare world index)) h := by
  refine ⟨fun kind hkind name hname => ?_, ?_, hs⟩
  · have hfile := ledger_history host h (.bare world index) kind (safeFilename name)
    rw [Workspace.bare, Entries.get_nil, Option.getD_none, List.nil_append, rows_by_file hname] at hfile
    refine readLedger_rows hkind hfile (fun row hrow => ?_)
    obtain ⟨n, -, hw⟩ := mem_rowsWhere hrow
    exact hclean _ hw
  · have hd : ((h.foldl (Workspace.put host) (.bare world index)).cards.map Prod.fst).Nodup :=
      cards_nodup host h List.nodup_nil
    obtain ⟨cards, hcards, hget⟩ := loadCharacters_held hyaml (cardFiles hclean) hd
    refine ⟨cards, hcards, fun name card hlast => ?_⟩
    obtain ⟨n, hn, hw⟩ := mem_cardsWhere (List.mem_of_getLast? hlast)
    obtain rfl := beq_iff_eq.mp hn
    obtain ⟨hread, hcard, -⟩ := hclean _ hw
    have hfile := cards_history host h (.bare world index) (safeFilename n)
    rw [cards_by_file (hs _ (card_entity hw)), hlast, Option.map_some, Option.some_or] at hfile
    rw [hget, held, hfile, Option.bind_some, loadCard_dump hyaml hread]
    exact if_pos hcard

end History

theorem legible_put {float : String → PyFloat} {name : String} {v : Value} (hd : Legible float (.obj d))
    (hname : OneLine (.str name)) (hv : Legible float v) : Legible float (.obj (Dict.put d name v)) := by
  rw [legible_obj] at hd ⊢
  refine ⟨Value.nodup_put hd.1 name v, fun f hf => ?_⟩
  rcases Dict.mem_put hf with rfl | hf
  · exact ⟨hname, hv⟩
  · exact hd.2 f hf

theorem pop_sublist (d : Dict) (name : String) : (Dict.pop d name).Sublist d := by
  induction d with
  | nil => exact List.Sublist.refl _
  | cons f d ih =>
    rw [Dict.pop]
    split
    · exact List.sublist_cons_self f d
    · exact ih.cons_cons f

theorem legible_sublist {float : String → PyFloat} {d e : Dict} (hd : Legible float (.obj d)) (hs : e.Sublist d) :
    Legible float (.obj e) := by
  rw [legible_obj] at hd ⊢
  exact ⟨hd.1.sublist (hs.map Prod.fst), fun f hf => hd.2 f (hs.subset hf)⟩

theorem find_pop_self {name : String} (hd : (d.map Prod.fst).Nodup) : Dict.find (Dict.pop d name) name = none := by
  induction d with
  | nil => rfl
  | cons f d ih =>
    obtain ⟨hnew, hd⟩ := List.nodup_cons.mp hd
    rw [Dict.pop]
    split
    · next h =>
      rw [Dict.find, Option.map_eq_none_iff, List.find?_eq_none]
      intro g hg heq
      rw [beq_iff_eq] at h heq
      exact hnew (h ▸ heq ▸ List.mem_map_of_mem hg)
    · next h =>
      rw [Dict.find, List.find?_cons, Bool.eq_false_iff.mpr h]
      exact ih hd

theorem find_pop_other {name other : String} (h : other ≠ name) :
    Dict.find (Dict.pop d name) other = Dict.find d other := by
  induction d with
  | nil => rfl
  | cons f d ih =>
    rw [Dict.pop]
    split
    · next hf =>
      rw [beq_iff_eq] at hf
      rw [Dict.find, Dict.find, List.find?_cons, beq_eq_false_iff_ne.mpr (hf ▸ h.symm)]
    · next hf =>
      by_cases ho : f.1 = other
      · simp [Dict.find, ho]
      · have hne : (f.1 == other) = false := beq_eq_false_iff_ne.mpr ho
        rw [Dict.find, Dict.find, List.find?_cons, List.find?_cons, hne]
        exact ih

/-- One round of `_overwrite`. -/
def overwriteOne (entry : Dict) (f : String × Value) : Dict :=
  if isTransientKey f.1 then entry else if f.2.isNull then entry.pop f.1 else entry.put f.1 f.2

theorem legible_overwriteOne {float : String → PyFloat} {entry : Dict} {f : String × Value}
    (hd : Legible float (.obj entry)) (hf : OneLine (.str f.1) ∧ Legible float f.2) :
    Legible float (.obj (overwriteOne entry f)) := by
  rw [overwriteOne]
  split
  · exact hd
  split
  · exact legible_sublist hd (pop_sublist entry f.1)
  · exact legible_put hd hf.1 hf.2

theorem legible_overwrite {float : String → PyFloat} {entry changes : Dict} (hd : Legible float (.obj entry))
    (hc : ∀ f ∈ changes, OneLine (.str f.1) ∧ Legible float f.2) : Legible float (.obj (overwrite entry changes)) := by
  induction changes generalizing entry with
  | nil => exact hd
  | cons f changes ih =>
    exact ih (legible_overwriteOne hd (hc f List.mem_cons_self)) (fun g hg => hc g (List.mem_cons_of_mem f hg))

theorem get_overwriteOne {entry : Dict} {f : String × Value} (hd : (entry.map Prod.fst).Nodup) {name : String}
    (hname : isTransientKey name = false) :
    (overwriteOne entry f).get name = if f.1 = name then f.2 else entry.get name := by
  rw [overwriteOne]
  by_cases hf : f.1 = name
  · rw [if_pos hf, hf, hname, if_neg Bool.false_ne_true]
    split
    · next hnull =>
      rw [Dict.get, find_pop_self hd]
      cases hv : f.2 with
      | null => rfl
      | _ => rw [hv] at hnull; exact absurd hnull Bool.false_ne_true
    · exact Dict.get_put_self
  · rw [if_neg hf]
    split
    · rfl
    split
    · rw [Dict.get, find_pop_other (Ne.symm hf)]
      rfl
    · exact Dict.get_put_other (Ne.symm hf)

/-- What the changes say of a key is what stands there after them; else it stays. -/
theorem get_overwrite {float : String → PyFloat} {entry changes : Dict} (hd : Legible float (.obj entry))
    (hc : Legible float (.obj changes)) {name : String} (hname : isTransientKey name = false) :
    (overwrite entry changes).get name = (changes.find name).getD (entry.get name) := by
  induction changes generalizing entry with
  | nil => rfl
  | cons f changes ih =>
    rw [legible_obj, List.map_cons, List.nodup_cons] at hc
    obtain ⟨⟨hnew, hkeys⟩, hvalues⟩ := hc
    have hrest : Legible float (.obj changes) :=
      legible_obj.mpr ⟨hkeys, fun g hg => hvalues g (List.mem_cons_of_mem f hg)⟩
    have hone := legible_overwriteOne hd (hvalues f List.mem_cons_self)
    have hstep : overwrite entry (f :: changes) = overwrite (overwriteOne entry f) changes := rfl
    rw [hstep, ih hone hrest, get_overwriteOne (legible_obj.mp hd).1 hname]
    by_cases hf : f.1 = name
    · have hgone : Dict.find changes name = none := by
        rw [Dict.find, Option.map_eq_none_iff, List.find?_eq_none]
        intro g hg heq
        rw [beq_iff_eq] at heq
        exact hnew (hf ▸ heq ▸ List.mem_map_of_mem hg)
      rw [hgone, if_pos hf]
      simp [Dict.find, hf]
    · have hne : (f.1 == name) = false := beq_eq_false_iff_ne.mpr hf
      rw [if_neg hf, Dict.find, Dict.find, List.find?_cons, hne]

theorem safeFilename_ne (name : String) : safeFilename name ≠ "" := by
  intro h
  simp only [safeFilename] at h
  split at h
  · exact absurd h (by decide)
  · next hne => exact hne (by simpa using congrArg String.toList h)

theorem cardName_ne (name : String) (card : Dict) : cardName (safeFilename name) card ≠ "" :=
  Value.toText_ne_empty (Value.truthy_orElse _ (bne_iff_ne.mpr (safeFilename_ne name)))

theorem cardName_str {stem name : String} (hne : name ≠ "") (h : card.get "name" = .str name) :
    cardName stem card = name := by
  have htrue : (card.get "name").truthy = true := h ▸ bne_iff_ne.mpr hne
  rw [cardName, Value.orElse_truthy htrue, h, Value.toText_str]

/-- The cards in memory name their own entities. -/
def CardsOf (host : Host) (characters : Entries String Dict) : Prop :=
  ∀ name card, characters.get name = some card →
    Legible host.float (.obj card) ∧ cardName (safeFilename name) card = name

theorem cardsOf_held {host : Host} {files : Entries String Text} {characters : Entries String Dict}
    (hyaml : YamlRoundTrip host) (hfiles : ∀ file ∈ files, CardFile host file)
    (hget : ∀ name, characters.get name = held host files name) : CardsOf host characters := by
  intro name card hcard
  rw [hget, held, Option.bind_eq_some_iff] at hcard
  obtain ⟨text, hfile, hcard⟩ := hcard
  obtain ⟨stored, rfl, hread, -, hline⟩ := hfiles _ (Entries.mem_of_get hfile)
  dsimp only at hline
  simp only [loadCard_dump hyaml hread, Option.ite_none_right_eq_some, Option.some.injEq] at hcard
  obtain ⟨hname, rfl⟩ := hcard
  rw [hname] at hline
  rw [setdefault]
  split
  · exact ⟨hread, hname⟩
  · have hne : name ≠ "" := hname ▸ cardName_ne name stored
    have hkey : OneLine (.str "name") := oneLine_text (by decide)
    exact ⟨legible_put hread hkey ⟨trivial, hline⟩, cardName_str hne Dict.get_put_self⟩

/-- The parts of a row are on one line. -/
structure RowFits (host : Host) (name : String) (entry : Dict) : Prop where
  entry : Legible host.float (.obj entry)
  name : OneLine (.str name)

theorem update_fits {host : Host} {d entry : Dict} (hd : Legible host.float (.obj d))
    (he : ∀ f ∈ entry, OneLine (.str f.1) ∧ Legible host.float f.2) : Legible host.float
      (.obj (Dict.update d entry)) := by
  induction entry generalizing d with
  | nil => exact hd
  | cons f entry ih =>
    obtain ⟨hkey, hvalue⟩ := he f List.mem_cons_self
    exact ih (legible_put hd hkey hvalue) (fun g hg => he g (List.mem_cons_of_mem f hg))

theorem row_clean {host : Host} {entry : Dict} {w : Write} (h : RowFits host name entry)
    (hw : ledgerAppend kind name entry = .ok w) : w.Clean host ∧ w.entity = some (kind, name) := by
  rw [ledgerAppend, bind_ok] at hw
  obtain ⟨-, -, hw⟩ := hw
  rw [pure_ok] at hw
  subst hw
  refine ⟨update_fits ?_ (legible_obj.mp h.entry).2, rfl⟩
  have hkey : OneLine (.str "entity") := oneLine_text (by decide)
  exact legible_obj.mpr ⟨List.nodup_singleton _, List.forall_mem_singleton.mpr ⟨hkey, trivial, h.name⟩⟩

theorem journal_fits {host : Host} {name type reason : String} {chapter changes : Value} (hname : OneLine (.str name))
    (htype : OneLine (.str type)) (hreason : OneLine (.str reason)) (hchapter : Legible host.float chapter)
    (hchanges : Legible host.float changes) : RowFits host name (journal chapter type changes reason) := by
  refine ⟨legible_obj.mpr ⟨by simp [journal], ?_⟩, hname⟩
  simp only [journal, List.forall_mem_cons]
  exact ⟨⟨oneLine_text (by decide), hchapter⟩, ⟨oneLine_text (by decide), trivial, htype⟩,
    ⟨oneLine_text (by decide), hchanges⟩, ⟨oneLine_text (by decide), trivial, hreason⟩,
    fun f hf => absurd hf List.not_mem_nil⟩

/-- The changes leave the card under its name. -/
def KeepsName (name : String) (changes : Value) : Prop :=
  ∀ fields v, changes = .obj fields → Dict.find fields "name" = some v →
    (Value.orElse v (.str (safeFilename name))).toText = name

def eventKind (ev : Dict) : String :=
  if isCharacter (ev.get "entity_type") then "characters"
  else if (ev.get "entity_type").isText "faction" then "factions"
  else "settings"

def eventName (characters : Entries String Dict) (ev : Dict) : String :=
  if isCharacter (ev.get "entity_type") then resolve characters ev else entityName ev

def changesOf (ev : Dict) : Value := Value.orElse (ev.get "changes") (.obj [])

/-- An event that loses nothing: its entity has a file of its own, its texts are on one line,
and a character keeps its name. -/
structure EventFits (host : Host) (chapter : Value) (used : List (String × String)) (characters : Entries String Dict)
    (ev : Dict) : Prop where
  apart : Apart used (eventKind ev) (eventName characters ev)
  name : OneLine (.str (eventName characters ev))
  reason : OneLine (.str (reasonOf ev))
  chapter : Legible host.float chapter
  changes : Legible host.float (changesOf ev)
  keeps : isCharacter (ev.get "entity_type") = true → KeepsName (eventName characters ev) (changesOf ev)

/-- The events of a list, each in the state it is posted in; `used` are the names before. -/
def EventsFit (host : Host) (chapter : Value) (used : List (String × String)) : Posting → List Dict → Prop
  | _, [] => True
  | s, ev :: evs => ∀ s', applyEvent host chapter s ev = .ok s' →
      EventFits host chapter (used ++ entities s.writes) s.characters ev ∧ EventsFit host chapter used s' evs

def Step.Fits (host : Host) (ws : Workspace) (used : List (String × String)) : Step → Prop
  | .append kind name entry => kind ∈ LEDGER_KINDS → Apart used kind name ∧ RowFits host name entry
  | .events evs chapter => validateEvents host ws evs = .ok () → ∀ characters world,
      loadCharacters host ws = .ok characters → loadWorld host ws = .ok world →
      EventsFit host chapter used ⟨characters, world, [], []⟩ evs

/-- The steps of a run, each in the state it is made in. -/
def RunFits (host : Host) : Workspace → List (String × String) → List Step → Prop
  | _, _, [] => True
  | ws, used, s :: steps => s.Fits host ws used ∧
      RunFits host ((s.writes host ws).foldl (Workspace.put host) ws) (used ++ entities (s.writes host ws)) steps

theorem separate_add (hs : Separate used) (ha : Apart used kind name) :
    Separate (used ++ [(kind, name)]) := by
  intro e he other hother hfile
  rw [List.mem_append, List.mem_singleton] at he hother
  rcases he with he | rfl
  · rcases hother with hother | heq
    · exact hs e he other hother hfile
    · obtain ⟨hk, rfl⟩ := Prod.mk.inj heq
      exact (ha e.2 (hk ▸ he) hfile.symm).symm
  · rcases hother with hother | heq
    · exact ha other hother hfile
    · exact (Prod.mk.inj heq).2

theorem apart_add (ha : Apart used kind name) :
    Apart (used ++ [(kind, name)]) kind name := by
  intro other hother hfile
  rcases List.mem_append.mp hother with hother | hother
  · exact ha other hother hfile
  · exact (Prod.mk.inj (List.mem_singleton.mp hother)).2

/-- What a posting keeps. -/
structure Sound (host : Host) (used : List (String × String)) (s : Posting) : Prop where
  clean : ∀ w ∈ s.writes, w.Clean host
  apart : Separate (used ++ entities s.writes)
  cards : CardsOf host s.characters

/-- A row and what is written after it, both of one entity. -/
theorem sound_add {host : Host} {writes : List Write} {row w : Write}
    (hclean : ∀ w ∈ writes, w.Clean host) (hs : Separate (used ++ entities writes))
    (ha : Apart (used ++ entities writes) kind name) (hrow : row.Clean host ∧ row.entity = some (kind, name))
    (hw : w.Clean host) (hentity : w.entity = none ∨ w.entity = some (kind, name)) :
    (∀ x ∈ writes ++ [row, w], x.Clean host) ∧ Separate (used ++ entities (writes ++ [row, w])) := by
  constructor
  · intro x hx
    rcases List.mem_append.mp hx with hx | hx
    · exact hclean x hx
    · rcases List.mem_cons.mp hx with rfl | hx
      · exact hrow.1
      · exact List.mem_singleton.mp hx ▸ hw
  · have hadd := separate_add hs ha
    rcases hentity with hnone | hsome
    · have hlist : entities (writes ++ [row, w]) = entities writes ++ [(kind, name)] := by
        simp [entities, hrow.2, hnone]
      rw [hlist, ← List.append_assoc]
      exact hadd
    · have hlist : entities (writes ++ [row, w]) = entities writes ++ [(kind, name)] ++ [(kind, name)] := by
        simp [entities, hrow.2, hsome]
      rw [hlist, ← List.append_assoc, ← List.append_assoc]
      exact separate_add hadd (apart_add ha)

theorem asDict_ok {v : Value} : asDict v = .ok d ↔ v = .obj d := by
  cases v <;> simp [asDict]

/-- The card an event leaves: it can be read, and it keeps its name where the changes do. -/
theorem booked_clean {host : Host} {name : String} {card : Option Dict} {changes : Dict} (hne : name ≠ "")
    (hline : OneLine (.str name))
    (hcard : ∀ c, card = some c → Legible host.float (.obj c) ∧ cardName (safeFilename name) c = name)
    (hchanges : Legible host.float (.obj changes)) (hkeeps : KeepsName name (.obj changes)) :
    Legible host.float (.obj (bookedCard card name changes)) ∧
      cardName (safeFilename name) (bookedCard card name changes) = name := by
  have hbase : Legible host.float (.obj (card.getD [("name", .str name), ("status", .str "alive")])) ∧
      cardName (safeFilename name) (card.getD [("name", .str name), ("status", .str "alive")]) = name := by
    cases card with
    | some c => exact hcard c rfl
    | none =>
      refine ⟨legible_obj.mpr ⟨by simp, ?_⟩, cardName_str hne rfl⟩
      simp only [Option.getD_none, List.forall_mem_cons]
      exact ⟨⟨oneLine_text (by decide), trivial, hline⟩, ⟨oneLine_text (by decide), trivial, oneLine_text (by decide)⟩,
        fun f hf => absurd hf List.not_mem_nil⟩
  have hpop := legible_sublist hbase.1 (pop_sublist _ "progression")
  have hentry := legible_overwrite hpop (legible_obj.mp hchanges).2
  have hget := get_overwrite hpop hchanges (show isTransientKey "name" = false by decide)
  have hother : ("name" : String) ≠ "progression" := by decide
  have hnamed : cardName (safeFilename name)
      (overwrite ((card.getD [("name", .str name), ("status", .str "alive")]).pop "progression") changes) = name := by
    rw [cardName, hget]
    cases hfind : changes.find "name" with
    | some v => exact hkeeps changes v rfl hfind
    | none =>
      rw [Option.getD_none, Dict.get, find_pop_other hother]
      exact hbase.2
  rw [bookedCard]
  split
  · have hinit : ("name" : String) ≠ "initial" := by decide
    refine ⟨legible_put hentry (oneLine_text (by decide)) (legible_sublist hentry List.filter_sublist), ?_⟩
    rw [cardName, Dict.get_put_other hinit]
    exact hnamed
  · exact ⟨hentry, hnamed⟩

theorem types_oneLine : OneLine (.str "create") ∧ OneLine (.str "event") :=
  ⟨oneLine_text (by decide), oneLine_text (by decide)⟩

theorem resolve_ne {host : Host} {characters : Entries String Dict} {ev : Dict} (hcards : CardsOf host characters)
    (hname : entityName ev ≠ "") : resolve characters ev ≠ "" := by
  rw [resolve]
  split
  · cases hfind : findProtagonist characters with
    | none => exact hname
    | some name =>
      obtain ⟨c, hc, rfl⟩ := Option.map_eq_some_iff.mp hfind
      have hmem : c.1 ∈ characters.map Prod.fst := List.mem_map_of_mem (List.mem_of_find?_eq_some hc)
      obtain ⟨card, hcard⟩ := Option.isSome_iff_exists.mp (Entries.get_isSome.mpr hmem)
      exact (hcards _ card hcard).2 ▸ cardName_ne _ card
  · exact hname

/-- An event that fits keeps a posting sound. -/
theorem sound_event {host : Host} {chapter : Value} {s s' : Posting} {ev : Dict}
    (h : Sound host used s) (hfit : EventFits host chapter (used ++ entities s.writes) s.characters ev)
    (hname : entityName ev ≠ "") (happly : applyEvent host chapter s ev = .ok s') : Sound host used s' := by
  obtain ⟨hclean, hs, hcards⟩ := h
  rw [applyEvent] at happly
  by_cases hchar : isCharacter (ev.get "entity_type") = true
  · have hkind : eventKind ev = "characters" := if_pos hchar
    have hentity : eventName s.characters ev = resolve s.characters ev := if_pos hchar
    have ha := hfit.apart
    have hkeeps := hfit.keeps hchar
    rw [hkind, hentity] at ha
    rw [hentity] at hkeeps
    simp only [if_pos hchar, postCharacter, bind_ok, pure_ok, asDict_ok] at happly
    obtain ⟨changes, hchanges, row, hrow, rfl⟩ := happly
    have hsame : changesOf ev = .obj changes := hchanges
    have hne := resolve_ne hcards hname
    have htype : OneLine (.str (if (s.characters.get (resolve s.characters ev)).isNone then "create"
        else "event")) := by
      split
      · exact types_oneLine.1
      · exact types_oneLine.2
    have hfits := journal_fits (hentity ▸ hfit.name) htype hfit.reason hfit.chapter hfit.changes
    have hline := hentity ▸ hfit.name
    have hbooked := booked_clean hne hline (fun c hc => hcards _ c hc) (hsame ▸ hfit.changes) (hsame ▸ hkeeps)
    have hcard : (Write.card (resolve s.characters ev) (bookedCard (s.characters.get (resolve s.characters ev))
        (resolve s.characters ev) changes)).Clean host := ⟨hbooked.1, hbooked.2, hline⟩
    obtain ⟨hall, hsep⟩ := sound_add hclean hs ha (row_clean hfits hrow) hcard (.inr rfl)
    refine ⟨hall, hsep, fun name card hget => ?_⟩
    rw [Entries.get_set] at hget
    split at hget
    · next heq =>
      obtain rfl := Option.some.inj hget
      exact heq ▸ hbooked
    · exact hcards name card hget
  · have hentity : eventName s.characters ev = entityName ev := if_neg hchar
    have ha := hfit.apart
    rw [hentity] at ha
    have hfits := journal_fits (hentity ▸ hfit.name) types_oneLine.2 hfit.reason hfit.chapter hfit.changes
    rw [if_neg hchar] at happly
    by_cases hfaction : (ev.get "entity_type").isText "faction" = true
    · have hkind : eventKind ev = "factions" := (if_neg hchar).trans (if_pos hfaction)
      rw [hkind] at ha
      simp only [if_pos hfaction, postFaction, bind_ok, pure_ok] at happly
      obtain ⟨factions, -, entry, -, fields, -, row, hrow, rfl⟩ := happly
      obtain ⟨hall, hsep⟩ := sound_add hclean hs ha (row_clean hfits hrow) (w := .world _) trivial (.inl rfl)
      exact ⟨hall, hsep, hcards⟩
    · have hkind : eventKind ev = "settings" := (if_neg hchar).trans (if_neg hfaction)
      rw [hkind] at ha
      simp only [if_neg hfaction, postSetting, bind_ok, pure_ok] at happly
      obtain ⟨settings, -, entry, -, row, hrow, rfl⟩ := happly
      obtain ⟨hall, hsep⟩ := sound_add hclean hs ha (row_clean hfits hrow) (w := .world _) trivial (.inl rfl)
      exact ⟨hall, hsep, hcards⟩

theorem sound_loop {host : Host} {chapter : Value} {s : Posting} {evs : List Dict}
    (h : Sound host used s) (hfit : EventsFit host chapter used s evs) (hnames : ∀ ev ∈ evs, entityName ev ≠ "") :
    Sound host used (applyLoop host chapter s evs).1 := by
  induction evs generalizing s with
  | nil => exact h
  | cons ev evs ih =>
    rw [applyLoop]
    cases happly : applyEvent host chapter s ev with
    | error e => exact h
    | ok s' =>
      obtain ⟨hev, hrest⟩ := hfit s' happly
      exact ih (sound_event h hev (hnames ev List.mem_cons_self) happly) hrest
        (fun x hx => hnames x (List.mem_cons_of_mem ev hx))

theorem validated_names {host : Host} {evs : List Dict} (h : validateEvents host ws evs = .ok ()) :
    ∀ ev ∈ evs, entityName ev ≠ "" := by
  simp only [validateEvents, bind_ok] at h
  obtain ⟨characters, -, aliases, -, world, -, factions, -, -, -, known, hloop, -⟩ := h
  generalize (characters.map Prod.fst, factions.filterMap Value.text?) = start at hloop
  induction evs generalizing start with
  | nil => exact fun ev hev => absurd hev List.not_mem_nil
  | cons ev evs ih =>
    rw [List.foldlM_cons, bind_ok] at hloop
    obtain ⟨next, hround, hloop⟩ := hloop
    intro x hx
    rcases List.mem_cons.mp hx with rfl | hx
    · simp only [validateEvent, bind_ok, ensure_ok] at hround
      obtain ⟨-, -, -, hname, -⟩ := hround
      exact hname
    · exact ih next hloop x hx

/-- A step that fits writes what is read back. -/
theorem step_clean {host : Host} (hyaml : YamlRoundTrip host) {starting index : Option Text}
    (hws : ws = h.foldl (Workspace.put host) (.bare starting index)) (hclean : ∀ w ∈ h, w.Clean host)
    (hs : Separate (entities h)) {step : Step} (hfit : step.Fits host ws (entities h)) :
    (∀ w ∈ step.writes host ws, w.Clean host) ∧ Separate (entities h ++ entities (step.writes host ws)) := by
  have hnothing : Separate (entities h ++ entities []) := by
    have hempty : entities [] = [] := rfl
    rw [hempty, List.append_nil]
    exact hs
  cases step with
  | append kind name entry =>
    rw [Step.writes]
    cases hw : ledgerAppend kind name entry with
    | error e => exact ⟨fun w hw => absurd hw List.not_mem_nil, hnothing⟩
    | ok w =>
      have hkind : kind ∈ LEDGER_KINDS := by
        rw [ledgerAppend, bind_ok] at hw
        obtain ⟨u, hkind, -⟩ := hw
        exact ensure_ok.mp hkind
      obtain ⟨ha, hrow⟩ := hfit hkind
      obtain ⟨hclean, hentity⟩ := row_clean hrow hw
      refine ⟨fun x hx => List.mem_singleton.mp hx ▸ hclean, ?_⟩
      have hlist : entities [w] = [(kind, name)] := by simp [entities, hentity]
      rw [hlist]
      exact separate_add hs ha
  | events evs chapter =>
    rw [Step.writes, applyEvents]
    cases hstart : (do
      validateEvents host ws evs
      let characters ← loadCharacters host ws
      let world ← loadWorld host ws
      return (characters, world)) with
    | error e => exact ⟨fun w hw => absurd hw List.not_mem_nil, hnothing⟩
    | ok start =>
      simp only [bind_ok, pure_ok] at hstart
      obtain ⟨u, hvalid, characters, hcharacters, world, hworld, rfl⟩ := hstart
      have hfiles : ∀ file ∈ ws.cards, CardFile host file := by
        rw [hws]
        exact cardFiles hclean
      have hd : (ws.cards.map Prod.fst).Nodup := by
        rw [hws]
        exact cards_nodup host h List.nodup_nil
      obtain ⟨cards, hcards, hget⟩ := loadCharacters_held hyaml hfiles hd
      obtain rfl : cards = characters := Except.ok.inj (hcards.symm.trans hcharacters)
      have hsound : Sound host (entities h) ⟨cards, world, [], []⟩ :=
        ⟨fun w hw => absurd hw List.not_mem_nil, hnothing, cardsOf_held hyaml hfiles hget⟩
      have hdone := sound_loop hsound (hfit hvalid cards world hcharacters hworld) (validated_names hvalid)
      cases hloop : applyLoop host chapter ⟨cards, world, [], []⟩ evs with
      | mk posted failed =>
        rw [hloop] at hdone
        simp only [hloop]
        cases failed with
        | none => exact ⟨hdone.clean, hdone.apart⟩
        | some e => exact ⟨hdone.clean, hdone.apart⟩

theorem entities_append (h h' : List Write) : entities (h ++ h') = entities h ++ entities h' := List.filterMap_append ..

/-- The histories of a run whose steps fit are clean, and their names apart. -/
theorem history_clean {host : Host} (hyaml : YamlRoundTrip host) {world index : Option Text} {steps : List Step}
    (hws : ws = h.foldl (Workspace.put host) (.bare world index)) (hclean : ∀ w ∈ h, w.Clean host)
      (hs : Separate (entities h)) (hfit : RunFits host ws (entities h) steps) :
    (∀ w ∈ h ++ history host ws steps, w.Clean host) ∧ Separate (entities (h ++ history host ws steps)) := by
  induction steps generalizing h ws with
  | nil =>
    rw [history, List.append_nil]
    exact ⟨hclean, hs⟩
  | cons step steps ih =>
    obtain ⟨hstep, hrest⟩ := hfit
    obtain ⟨hwrites, happart⟩ := step_clean hyaml hws hclean hs hstep
    have hall : ∀ w ∈ h ++ step.writes host ws, w.Clean host := by
      intro w hw
      exact (List.mem_append.mp hw).elim (hclean w) (hwrites w)
    have hafter : (step.writes host ws).foldl (Workspace.put host) ws =
        (h ++ step.writes host ws).foldl (Workspace.put host) (.bare world index) := by
      rw [List.foldl_append, ← hws]
    rw [history, ← List.append_assoc]
    rw [← entities_append] at happart hrest
    exact ih hafter hall happart hrest

theorem runFits_take {host : Host} {steps : List Step}
    (h : RunFits host ws used steps) (n : Nat) : RunFits host ws used (steps.take n) := by
  induction steps generalizing ws used n with
  | nil => simpa using h
  | cons step steps ih =>
    cases n with
    | zero => exact trivial
    | succ n => exact ⟨h.1, ih h.2 n⟩

namespace Sample

/-- A float's text is kept as it is. -/
def float (s : String) : PyFloat := if h : s = "" then ⟨"0.0", some 0, by decide⟩ else ⟨s, none, h⟩

/-- Cards in JSON, which is YAML. -/
def host : Host := ⟨float, fun _ _ => false, JsonDoc.dumps (JsonDoc.indented 2),
  fun text => orElse (JsonDoc.loads float text) "YAMLError"⟩

theorem host_yaml : YamlRoundTrip host := by
  intro v hv
  have h := JsonDoc.loads_dumps (JsonDoc.indented 2) hv.1 (List.forall_mem_nil _)
  rw [List.append_nil] at h
  have hload : host.loadYaml (host.dumpYaml v) =
      orElse (JsonDoc.loads float (JsonDoc.dumps (JsonDoc.indented 2) v)) "YAMLError" := rfl
  have hfloat : JsonDoc.loads float (JsonDoc.dumps (JsonDoc.indented 2) v) = some v := h
  rw [hload, hfloat]
  rfl

def entry (text : String) : Dict := [("chapter", .int 1), ("detail", .str text)]

/-- Two characters whose names differ in a character that no file name has. -/
def mixed : List Step := [.append "characters" "A/B" (entry "left"), .append "characters" "A:B" (entry "right")]

/-- A text with a line separator. -/
def separated : List Step := [.append "threads" "T" (entry "one\u2028two")]

def introduced : Dict :=
  [("entity_type", .str "character"), ("entity_name", .str "Lin"), ("create", .bool true),
    ("changes", .obj [("mood", .str "calm")]), ("reason", .str "arrives")]

def saddened : Dict :=
  [("entity_type", .str "character"), ("entity_name", .str "Lin"),
    ("changes", .obj [("mood", .str "sad"), ("age", .null)])]

def joined : Dict :=
  [("entity_type", .str "character"), ("entity_name", .str "Wei"), ("create", .bool true)]

/-- Rows of two threads, and a character introduced, changed and joined by another. -/
def plain : List Step :=
  [.append "threads" "T" (entry "one"), .append "threads" "U" (entry "two"), .append "threads" "T" (entry "three"),
    .events [introduced, saddened, joined] (.int 1)]

/-- The state after events on an empty workspace. -/
def posted (events : List Dict) : Posting := (applyLoop host (.int 1) ⟨[], [], [], []⟩ events).1

theorem entry_fits {name text : String} (hname : OneLine (.str name)) (htext : OneLine (.str text)) :
    RowFits host name (entry text) := by
  refine ⟨legible_obj.mpr ⟨by simp [entry], ?_⟩, hname⟩
  simp only [entry, List.forall_mem_cons]
  exact ⟨⟨oneLine_text (by decide), trivial, trivial⟩, ⟨oneLine_text (by decide), trivial, htext⟩,
    fun f hf => absurd hf List.not_mem_nil⟩

end Sample

theorem apart_of_all (h : used.all (fun e => decide (e.1 = kind → safeFilename e.2 = safeFilename name → e.2 = name)) =
    true) : Apart used kind name :=
  fun other hother => of_decide_eq_true (List.all_eq_true.mp h (kind, other) hother) rfl

theorem keepsName_of_find {fields : Dict} (h : Dict.find fields "name" = none) : KeepsName name (.obj fields) := by
  intro fields' v hsame hfind
  cases hsame
  rw [h] at hfind
  cases hfind

theorem plain_fits : RunFits Sample.host (.bare none none) [] Sample.plain := by
  have htext (s : String) (h : s.toList.all (fun c => decide (32 ≤ c.toNat → isLineEnd c = false)) = true) :
      Legible Sample.host.float (.str s) := ⟨trivial, oneLine_text h⟩
  have hT : OneLine (.str "T") := oneLine_text (by decide)
  refine ⟨fun _ => ⟨apart_of_all rfl, Sample.entry_fits hT (oneLine_text (by decide))⟩,
    fun _ => ⟨apart_of_all (by decide),
      Sample.entry_fits (oneLine_text (by decide)) (oneLine_text (by decide))⟩,
    fun _ => ⟨apart_of_all (by decide), Sample.entry_fits hT (oneLine_text (by decide))⟩, ?_, trivial⟩
  intro _ characters world hcharacters hworld
  obtain rfl : [] = characters := Except.ok.inj hcharacters
  obtain rfl : [] = world := Except.ok.inj hworld
  intro s₁ h₁
  obtain rfl : Sample.posted [Sample.introduced] = s₁ := Except.ok.inj h₁
  refine ⟨⟨apart_of_all (by decide), oneLine_text (by decide), oneLine_text (by decide),
    ⟨trivial, trivial⟩, ?_, fun _ => keepsName_of_find rfl⟩, fun s₂ h₂ => ?_⟩
  · refine legible_obj.mpr ⟨by decide,
      List.forall_mem_singleton.mpr ⟨oneLine_text (by decide), htext "calm" (by decide)⟩⟩
  obtain rfl : Sample.posted [Sample.introduced, Sample.saddened] = s₂ := Except.ok.inj h₂
  refine ⟨⟨apart_of_all (by decide), oneLine_text (by decide), oneLine_text (by decide),
    ⟨trivial, trivial⟩, ?_, fun _ => keepsName_of_find rfl⟩, fun s₃ h₃ => ?_⟩
  · refine legible_obj.mpr ⟨by decide, List.forall_mem_cons.mpr ⟨⟨oneLine_text (by decide), htext "sad" (by decide)⟩,
      List.forall_mem_singleton.mpr ⟨oneLine_text (by decide), trivial, trivial⟩⟩⟩
  exact ⟨⟨apart_of_all (by decide), oneLine_text (by decide), oneLine_text (by decide),
    ⟨trivial, trivial⟩, legible_obj.mpr ⟨List.nodup_nil, List.forall_mem_nil _⟩, fun _ =>
      keepsName_of_find rfl⟩, trivial⟩

end AItelier.Novel.Ledger
