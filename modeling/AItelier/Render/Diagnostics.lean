import AItelier.Lib.Folder
import AItelier.Lib.TextFile
import AItelier.Novel.Chapters
import Mathlib.Data.List.TakeWhile
import Mathlib.Algebra.GroupWithZero.Nat

namespace AItelier.Render

open AItelier.Lib
open AItelier.Novel (Digits)
open AItelier.State (isSpace)

abbrev ErrorText := List Char

def splitFrom : ErrorText → ErrorText → List ErrorText
  | [], [] => []
  | c :: current, [] => [(c :: current).reverse]
  | current, '\r' :: '\n' :: rest => current.reverse :: splitFrom [] rest
  | current, c :: rest => if isLineEnd c then current.reverse :: splitFrom [] rest else splitFrom (c :: current) rest

/-- `str.splitlines`. -/
def splitLines (text : ErrorText) : List ErrorText := splitFrom [] text

def trim (s : ErrorText) : ErrorText := ((s.dropWhile isSpace).reverse.dropWhile isSpace).reverse

/-- What follows a prefix. -/
def after (start : String) (s : ErrorText) : Option ErrorText :=
  if start.toList.isPrefixOf s then some (s.drop start.length) else none

def contains (part : String) (s : ErrorText) : Bool := s.tails.any (fun t => part.toList.isPrefixOf t)

/-- `_SCRIPT_ERR`. -/
def scriptError (line : ErrorText) : Option ErrorText := (after "SCRIPT ERROR:" line).map (List.dropWhile isSpace)

/-- `_USER_ERR`. -/
def userError (line : ErrorText) : Option ErrorText :=
  ((after "USER ERROR:" line).or (after "ERROR:" line)).map (List.dropWhile isSpace)

/-- `_FAILED_LOAD`. -/
def failedLoad (line : ErrorText) : Option ErrorText := do
  let rest ← after "ERROR: Failed to load script \"res://" line
  let path := rest.takeWhile (fun c => c != '"')
  if path ≠ [] ∧ (rest.drop path.length).head? = some '"' then some ("res://".toList ++ path) else none

structure Location where
  func : ErrorText
  src : ErrorText
  digits : ErrorText
  deriving DecidableEq

/-- `:(\d+)\)`. -/
def lineDigits (d : Digits) : ErrorText → Option ErrorText
  | ':' :: rest =>
    let digits := rest.takeWhile (fun c => (d.value c).isSome)
    if digits ≠ [] ∧ (rest.drop digits.length).head? = some ')' then some digits else none
  | _ => none

/-- `(.+?):(\d+)\)`, the shortest source first. -/
def source (d : Digits) (src : ErrorText) : ErrorText → Option (ErrorText × ErrorText)
  | [] => none
  | c :: rest =>
    match lineDigits d rest with
    | some digits => some (src ++ [c], digits)
    | none => source d (src ++ [c]) rest

/-- `\s*\((.+?):(\d+)\)`. -/
def inParens (d : Digits) (s : ErrorText) : Option (ErrorText × ErrorText) :=
  match s.dropWhile isSpace with
  | '(' :: rest => source d [] rest
  | _ => none

/-- `(.*?)\s*\((.+?):(\d+)\)`, the shortest place first. -/
def place (d : Digits) (func : ErrorText) : ErrorText → Option Location
  | [] => none
  | c :: rest =>
    ((inParens d (c :: rest)).map (fun l => ⟨func, l.1, l.2⟩)).or (place d (func ++ [c]) rest)

/-- `_AT`. -/
def at? (d : Digits) (line : ErrorText) : Option Location :=
  (after "at:" (line.dropWhile isSpace)).bind (fun rest => place d [] (rest.dropWhile isSpace))

def isPushError (l : Location) : Bool := "push_error".toList.isPrefixOf (trim l.func)

def inUserCode (l : Location) : Bool := "res://".toList.isPrefixOf l.src

/-- `int` of a line number: no more than 4300 digits are converted. -/
def lineNumber (d : Digits) (digits : ErrorText) : Except String Nat := do
  ensure (digits.length ≤ 4300) "ValueError: Exceeds the limit (4300 digits) for integer string conversion"
  orElse (d.int digits) "ValueError: invalid literal for int()"

inductive NativeClass
  | deferredCall | typeConversion | imageFormat | exitLeak | ioInput | unclassified
  deriving DecidableEq, Repr

/-- What a diagnostic of the engine has beyond the others. -/
structure Native where
  nativeClass : NativeClass
  blocking : Bool
  place : Option ErrorText
  count : Nat
  deriving DecidableEq

structure Diagnostic where
  kind : String
  msg : ErrorText
  file : Option ErrorText
  line : Option Nat
  native : Option Native
  deriving DecidableEq

/-- The kind and the message of a line the first scanner keeps. -/
def claimed (d : Digits) (line : ErrorText) (next : Option ErrorText) : Option (String × ErrorText) :=
  match scriptError line with
  | some msg => some (if contains "Parse Error" msg then "parse" else "runtime", msg)
  | none =>
    match failedLoad line with
    | some path => some ("load", "Failed to load script \"".toList ++ path ++ ['"'])
    | none =>
      match userError line with
      | some msg => if (next.bind (at? d)).any isPushError then some ("push_error", msg) else none
      | none => none

/-- Where a kept diagnostic is, when that is in user code. -/
def userLocation (d : Digits) (next : Option ErrorText) : Option Location := (next.bind (at? d)).filter inUserCode

/-- `_parse_errors` from a line on; `skip` passes over one that was read ahead. -/
def parseFrom (d : Digits) : Bool → List ErrorText → Except String (List Diagnostic)
  | _, [] => .ok []
  | true, _ :: rest => parseFrom d false rest
  | false, line :: rest =>
    match claimed d line rest.head? with
    | none => parseFrom d false rest
    | some (kind, msg) =>
      match userLocation d rest.head? with
      | some l => do
        let n ← lineNumber d l.digits
        let more ← parseFrom d true rest
        return ⟨kind, trim msg, some l.src, some n, none⟩ :: more
      | none => do
        let more ← parseFrom d false rest
        return ⟨kind, trim msg, none, none, none⟩ :: more

def parseErrors (d : Digits) (stderr : ErrorText) : Except String (List Diagnostic) :=
  parseFrom d false (splitLines stderr)

def ioInputSrc : List String := ["core/io/json.cpp", "core/io/config_file.cpp", "core/io/dir_access.cpp"]

def blockingNative : List NativeClass := [.deferredCall, .typeConversion, .imageFormat]

/-- `_classify_native`. -/
def classifyNative (msg func src : ErrorText) : NativeClass :=
  if contains "Error calling deferred method" msg || src == "core/object/message_queue.cpp".toList then .deferredCall
  else if contains "Cannot convert argument" msg then .typeConversion
  else if src == "core/io/image.cpp".toList &&
      (contains "format" msg || func == "blit_rect".toList || func == "blend_rect".toList) then .imageFormat
  else if contains "at exit" msg then .exitLeak
  else if ioInputSrc.any (fun s => src == s.toList) then .ioInput
  else .unclassified

/-- What tells one diagnostic of the engine from another. -/
structure Key where
  nativeClass : NativeClass
  msg : ErrorText
  func : ErrorText
  src : ErrorText
  deriving DecidableEq

def keyOf (msg : ErrorText) (l : Option Location) : Key :=
  let func := (l.map (fun l => trim l.func)).getD []
  let src := (l.map Location.src).getD []
  ⟨classifyNative (trim msg) func src, trim msg, func, src⟩

def entryOf (k : Key) (l : Option Location) (n : Option Nat) : Diagnostic :=
  ⟨"native", k.msg, if "res://".toList.isPrefixOf k.src then some k.src else none, n,
    some ⟨k.nativeClass, blockingNative.contains k.nativeClass,
      l.map (fun l => k.func ++ " (".toList ++ k.src ++ [':'] ++ l.digits ++ [')']), 1⟩⟩

def countUp (e : Diagnostic) : Diagnostic :=
  { e with native := e.native.map (fun n => { n with count := n.count + 1 }) }

/-- One line more of a key. -/
def book (d : Digits) (seen : Entries Key Diagnostic) (msg : ErrorText) (l : Option Location) :
    Except String (Entries Key Diagnostic) :=
  match seen.get (keyOf msg l) with
  | some e => .ok (seen.set (keyOf msg l) (countUp e))
  | none => do
    let n ← (l.filter inUserCode).mapM (fun l => lineNumber d l.digits)
    return seen.set (keyOf msg l) (entryOf (keyOf msg l) l n)

/-- `_native_errors` from a line on. -/
def nativeFrom (d : Digits) : Bool → Entries Key Diagnostic → List ErrorText → Except String (Entries Key Diagnostic)
  | _, seen, [] => .ok seen
  | true, seen, _ :: rest => nativeFrom d false seen rest
  | false, seen, line :: rest =>
    if (failedLoad line).isSome then nativeFrom d false seen rest
    else
      match userError line with
      | none => nativeFrom d false seen rest
      | some msg =>
        let l := rest.head?.bind (at? d)
        if l.any isPushError then nativeFrom d l.isSome seen rest
        else do
          let seen ← book d seen msg l
          nativeFrom d l.isSome seen rest

def nativeErrors (d : Digits) (stderr : ErrorText) : Except String (List Diagnostic) := do
  let seen ← nativeFrom d false [] (splitLines stderr)
  return seen.map Prod.snd

/-- `e.get("blocking", True)`. -/
def gates (e : Diagnostic) : Bool := (e.native.map Native.blocking).getD true

/-- `_split_diagnostics`. -/
def splitDiagnostics (errs : List Diagnostic) : List Diagnostic × List Diagnostic :=
  (errs.filter gates, errs.filter (fun e => !gates e))

def isErrorLine (line : ErrorText) : Bool :=
  ["SCRIPT ERROR:", "USER ERROR:", "ERROR:"].any (fun start => start.toList.isPrefixOf line)

/-- The error lines of a text, each with the line after it. -/
def occurrences : List ErrorText → List (ErrorText × Option ErrorText)
  | [] => []
  | line :: rest => if isErrorLine line then (line, rest.head?) :: occurrences rest else occurrences rest

variable {d : Digits}

theorem after_isSome {start : String} {s : ErrorText} : (after start s).isSome = start.toList.isPrefixOf s := by
  rw [after]
  cases start.toList.isPrefixOf s <;> rfl

variable {line : ErrorText} {l : Location} {next : Option ErrorText} {digits : ErrorText}
   {o : ErrorText × Option ErrorText} {seen : Entries Key Diagnostic} {e : Diagnostic} {k : Key}

/-- An error line opens with no blank, and not with a location. -/
theorem at_errorLine (h : isErrorLine line = true) : at? d line = none := by
  have hhead : ∃ c rest, line = c :: rest ∧ isSpace c = false ∧ c ≠ 'a' := by
    simp only [isErrorLine, List.any_cons, List.any_nil, Bool.or_false, Bool.or_eq_true] at h
    rcases h with h | h | h
    · obtain ⟨rest, rfl⟩ := List.isPrefixOf_iff_prefix.mp h
      exact ⟨'S', _, rfl, by decide⟩
    · obtain ⟨rest, rfl⟩ := List.isPrefixOf_iff_prefix.mp h
      exact ⟨'U', _, rfl, by decide⟩
    · obtain ⟨rest, rfl⟩ := List.isPrefixOf_iff_prefix.mp h
      exact ⟨'E', _, rfl, by decide⟩
  obtain ⟨c, rest, rfl, hspace, hc⟩ := hhead
  have hnone : after "at:" (c :: rest) = none := by
    rw [after, if_neg]
    intro hp
    obtain ⟨tail, ht⟩ := List.isPrefixOf_iff_prefix.mp hp
    exact hc (List.cons.inj ht).1.symm
  rw [at?, List.dropWhile_cons, hspace, if_neg Bool.false_ne_true, hnone]
  rfl

theorem occurrences_at (h : at? d line = some l) (rest : List ErrorText) :
    occurrences (line :: rest) = occurrences rest := by
  have hno : isErrorLine line = false := by
    cases he : isErrorLine line with
    | false => rfl
    | true =>
      rw [at_errorLine he] at h
      cases h
  rw [occurrences, hno]
  rfl

theorem failedLoad_errorLine (h : (failedLoad line).isSome = true) : (userError line).isSome = true := by
  have hafter : (after "ERROR: Failed to load script \"res://" line).isSome = true := by
    rw [failedLoad] at h
    cases ha : after "ERROR: Failed to load script \"res://" line with
    | none => simp [ha] at h
    | some rest => rfl
  rw [after_isSome] at hafter
  obtain ⟨tail, rfl⟩ := List.isPrefixOf_iff_prefix.mp hafter
  rfl

theorem userError_isSome :
    (userError line).isSome = ("USER ERROR:".toList.isPrefixOf line || "ERROR:".toList.isPrefixOf line) := by
  rw [userError, Option.isSome_map, Option.isSome_or, after_isSome, after_isSome]

theorem scriptError_isSome : (scriptError line).isSome = "SCRIPT ERROR:".toList.isPrefixOf line := by
  rw [scriptError, Option.isSome_map, after_isSome]

theorem errorLine_iff :
    isErrorLine line = ((scriptError line).isSome || (userError line).isSome) := by
  rw [scriptError_isSome, userError_isSome, isErrorLine]
  simp

theorem script_not_user (h : (scriptError line).isSome = true) : (userError line).isSome = false := by
  rw [scriptError_isSome] at h
  obtain ⟨tail, rfl⟩ := List.isPrefixOf_iff_prefix.mp h
  rfl

/-- The first scanner keeps this line. -/
def claims (d : Digits) (o : ErrorText × Option ErrorText) : Bool := (claimed d o.1 o.2).isSome

/-- What the first scanner makes of a line it keeps. -/
def diagnose (d : Digits) (o : ErrorText × Option ErrorText) : Except String Diagnostic :=
  let c := (claimed d o.1 o.2).getD ("", [])
  match userLocation d o.2 with
  | some l => do
    let n ← lineNumber d l.digits
    return ⟨c.1, trim c.2, some l.src, some n, none⟩
  | none => .ok ⟨c.1, trim c.2, none, none, none⟩

theorem claimed_errorLine (h : (claimed d line next).isSome = true) :
    isErrorLine line = true := by
  rw [errorLine_iff]
  rw [claimed] at h
  cases hs : scriptError line with
  | some msg => rfl
  | none =>
    cases hf : failedLoad line with
    | some path =>
      rw [failedLoad_errorLine (hf ▸ rfl)]
      rfl
    | none =>
      cases hu : userError line with
      | some msg => rfl
      | none => simp [hs, hf, hu] at h

/-- The first scanner goes through the error lines it keeps, in order. -/
theorem parseFrom_eq : ∀ (lines : List ErrorText)
    (skip : Bool), (skip = true → ∀ line ∈ lines.head?, (at? d line).isSome = true) →
    parseFrom d skip lines = ((occurrences lines).filter (claims d)).mapM (diagnose d)
  | [], skip, _ => by cases skip <;> rfl
  | line :: rest, true, h => by
    obtain ⟨l, hl⟩ := Option.isSome_iff_exists.mp (h rfl line rfl)
    rw [parseFrom, occurrences_at hl]
    exact parseFrom_eq rest false (fun hskip => absurd hskip Bool.false_ne_true)
  | line :: rest, false, _ => by
    have hrest := parseFrom_eq rest false (fun hskip => absurd hskip Bool.false_ne_true)
    rw [parseFrom]
    cases hc : claimed d line rest.head? with
    | none =>
      have hno : claims d (line, rest.head?) = false := by rw [claims, hc]; rfl
      by_cases hline : isErrorLine line = true
      · rw [occurrences, if_pos hline, List.filter_cons, hno]
        exact hrest
      · rw [occurrences, if_neg hline]
        exact hrest
    | some c =>
      have hline := claimed_errorLine (hc ▸ rfl : (claimed d line rest.head?).isSome = true)
      have hyes : claims d (line, rest.head?) = true := by rw [claims, hc]; rfl
      rw [occurrences, if_pos hline, List.filter_cons, if_pos hyes, List.mapM_cons, diagnose, hc]
      cases hu : userLocation d rest.head? with
      | none =>
        simp only [hrest]
        rfl
      | some l =>
        have hskip : ∀ next ∈ rest.head?, (at? d next).isSome = true := by
          intro next hnext
          rw [userLocation, Option.mem_def.mp hnext, Option.filter_eq_some_iff] at hu
          exact Option.isSome_iff_exists.mpr ⟨l, hu.1⟩
        simp only [parseFrom_eq rest true (fun _ => hskip)]
        cases lineNumber d l.digits <;> rfl

/-- What the second scanner books a line as. -/
def noted (d : Digits) (seen : Entries Key Diagnostic) (o : ErrorText × Option ErrorText) :
    Except String (Entries Key Diagnostic) :=
  book d seen ((userError o.1).getD []) (o.2.bind (at? d))

def keyFor (d : Digits) (o : ErrorText × Option ErrorText) : Key := keyOf ((userError o.1).getD []) (o.2.bind (at? d))

theorem claims_user {msg : ErrorText} (hf : failedLoad line = none)
    (hu : userError line = some msg) : claims d (line, next) = (next.bind (at? d)).any isPushError := by
  have hs : scriptError line = none := by
    cases hs : scriptError line with
    | none => rfl
    | some m =>
      have hno := script_not_user (hs ▸ rfl : (scriptError line).isSome = true)
      rw [hu] at hno
      exact absurd hno (by simp)
  rw [claims, claimed, hs, hf, hu]
  cases (next.bind (at? d)).any isPushError <;> rfl

/-- The second scanner goes through the error lines the first does not keep, in order. -/
theorem nativeFrom_eq : ∀ (lines : List ErrorText) (skip : Bool) (seen : Entries Key Diagnostic),
    (skip = true → ∀ line ∈ lines.head?, (at? d line).isSome = true) →
    nativeFrom d skip seen lines = ((occurrences lines).filter (fun o => !claims d o)).foldlM (noted d) seen
  | [], skip, seen, _ => by cases skip <;> rfl
  | line :: rest, true, seen, h => by
    obtain ⟨l, hl⟩ := Option.isSome_iff_exists.mp (h rfl line rfl)
    rw [nativeFrom, occurrences_at hl]
    exact nativeFrom_eq rest false seen (fun hskip => absurd hskip Bool.false_ne_true)
  | line :: rest, false, seen, _ => by
    have hskip : ∀ next ∈ rest.head?, (rest.head?.bind (at? d)).isSome = true → (at? d next).isSome = true := by
      intro next hnext
      rw [Option.mem_def.mp hnext, Option.bind_some]
      exact id
    have hrest := fun seen => nativeFrom_eq rest (rest.head?.bind (at? d)).isSome seen
        (fun h next hnext => hskip next hnext h)
    have hnext := nativeFrom_eq rest false seen (fun hskip => absurd hskip Bool.false_ne_true)
    rw [nativeFrom]
    by_cases hf : (failedLoad line).isSome = true
    · obtain ⟨path, hpath⟩ := Option.isSome_iff_exists.mp hf
      have hyes : claims d (line, rest.head?) = true := by
        rw [claims, claimed]
        cases scriptError line with
        | some msg => rfl
        | none => rw [hpath]; rfl
      rw [if_pos hf, hnext, occurrences]
      split
      · rw [List.filter_cons, hyes]
        rfl
      · rfl
    · rw [if_neg hf]
      have hnone : failedLoad line = none := by simpa using hf
      cases hu : userError line with
      | none =>
        have hkeep : isErrorLine line = true → claims d (line, rest.head?) = true := by
          intro hline
          rw [errorLine_iff, hu] at hline
          obtain ⟨msg, hs⟩ := Option.isSome_iff_exists.mp (by simpa using hline)
          rw [claims, claimed, hs]
          rfl
        by_cases hline : isErrorLine line = true
        · rw [occurrences, if_pos hline, List.filter_cons, hkeep hline]
          exact hnext
        · rw [occurrences, if_neg hline]
          exact hnext
      | some msg =>
        have hline : isErrorLine line = true := by
          rw [errorLine_iff, hu]
          simp
        have hclaims : claims d (line, rest.head?) = (rest.head?.bind (at? d)).any isPushError := claims_user hnone hu
        rw [occurrences, if_pos hline, List.filter_cons, hclaims]
        cases hp : (rest.head?.bind (at? d)).any isPushError with
        | true =>
          simp only [hp, if_true, Bool.not_true, Bool.false_eq_true, if_false]
          exact hrest seen
        | false =>
          have hnoted : noted d seen (line, rest.head?) = book d seen msg (rest.head?.bind (at? d)) := by
            rw [noted, hu]
            rfl
          simp only [hp, Bool.false_eq_true, if_false, Bool.not_false, if_true, List.foldlM_cons, hnoted, hrest]

theorem lineDigits_ok {cs digits : ErrorText} (h : lineDigits d cs = some digits) :
    ∀ c ∈ digits, (d.value c).isSome = true := by
  cases cs with
  | nil => cases h
  | cons c rest =>
    by_cases hc : c = ':'
    · subst hc
      simp only [lineDigits] at h
      split at h
      · cases h
        exact fun c hc => List.mem_takeWhile_imp (p := fun c => (d.value c).isSome) hc
      · cases h
    · have hnone : lineDigits d (c :: rest) = none := by
        rw [lineDigits]
        exact fun rest heq => hc (List.cons.inj heq).1
      rw [hnone] at h
      cases h

theorem source_digits {cs src : ErrorText} {out : ErrorText × ErrorText} (h : source d src cs = some out) :
    ∀ c ∈ out.2, (d.value c).isSome = true := by
  induction cs generalizing src with
  | nil => cases h
  | cons c rest ih =>
    rw [source] at h
    split at h
    · next digits hdigits =>
      cases h
      exact lineDigits_ok hdigits
    · exact ih h

theorem inParens_digits {cs : ErrorText} {out : ErrorText × ErrorText} (h : inParens d cs = some out) :
    ∀ c ∈ out.2, (d.value c).isSome = true := by
  unfold inParens at h
  split at h
  · exact source_digits h
  · cases h

theorem place_digits {cs func : ErrorText} (h : place d func cs = some l) :
    ∀ c ∈ l.digits, (d.value c).isSome = true := by
  induction cs generalizing func with
  | nil => cases h
  | cons c rest ih =>
    have hstep : ((inParens d (c :: rest)).map (fun l => Location.mk func l.1 l.2)).or
        (place d (func ++ [c]) rest) = some l := h
    rw [Option.or_eq_some_iff] at hstep
    rcases hstep with hhere | ⟨-, hlater⟩
    · obtain ⟨out, hparens, rfl⟩ := Option.map_eq_some_iff.mp hhere
      exact inParens_digits hparens
    · exact ih hlater

theorem int_digits (h : ∀ c ∈ digits, (d.value c).isSome = true) : ∃ n, d.int digits = some n := by
  have hfold : ∀ n, ∃ m, digits.foldlM (fun n c => (d.value c).map (10 * n + ·)) n = some m := by
    induction digits with
    | nil => exact fun n => ⟨n, rfl⟩
    | cons c digits ih =>
      intro n
      obtain ⟨v, hv⟩ := Option.isSome_iff_exists.mp (h c List.mem_cons_self)
      obtain ⟨m, hm⟩ := ih (fun x hx => h x (List.mem_cons_of_mem c hx)) (10 * n + v)
      exact ⟨m, by rw [List.foldlM_cons, hv]; exact hm⟩
  exact hfold 0

/-- The line number of a location in user code is one that is converted. -/
def Numbered (d : Digits) (next : Option ErrorText) : Prop := ∀ l, userLocation d next = some l → l.digits.length ≤ 4300

theorem lineNumber_total (h : userLocation d next = some l) :
    (∃ n, lineNumber d l.digits = .ok n) ↔ l.digits.length ≤ 4300 := by
  rw [userLocation, Option.filter_eq_some_iff, Option.bind_eq_some_iff] at h
  obtain ⟨⟨line, -, hat⟩, -⟩ := h
  rw [at?, Option.bind_eq_some_iff] at hat
  obtain ⟨rest, -, hplace⟩ := hat
  obtain ⟨m, hm⟩ := int_digits (place_digits hplace)
  simp only [lineNumber, bind_ok, ensure_ok, orElse_ok]
  exact ⟨fun ⟨_, _, hlen, _⟩ => hlen, fun hlen => ⟨m, (), hlen, hm⟩⟩

theorem diagnose_total : (∃ e, diagnose d o = .ok e) ↔ Numbered d o.2 := by
  rw [diagnose, Numbered]
  cases hu : userLocation d o.2 with
  | none => exact ⟨fun _ l hl => absurd hl (by simp), fun _ => ⟨_, rfl⟩⟩
  | some l =>
    have htotal := lineNumber_total hu
    simp only [bind_ok, pure_ok]
    constructor
    · rintro ⟨e, n, hn, -⟩ l' hl'
      exact Option.some.inj hl' ▸ htotal.mp ⟨n, hn⟩
    · intro hlen
      obtain ⟨n, hn⟩ := htotal.mpr (hlen l rfl)
      exact ⟨_, n, hn, rfl⟩

theorem book_new (hnew : seen.get (keyFor d o) = none) :
    (∃ r, noted d seen o = .ok r) ↔ Numbered d o.2 := by
  rw [keyFor] at hnew
  rw [noted, book, hnew, Numbered, userLocation]
  cases hu : (o.2.bind (at? d)).filter inUserCode with
  | none =>
    rw [Option.mapM_none]
    exact ⟨fun _ l hl => absurd hl (by simp), fun _ => ⟨_, rfl⟩⟩
  | some l =>
    have htotal := lineNumber_total (show userLocation d o.2 = some l from hu)
    simp only [bind_ok, optionMapM_ok, pure_ok]
    constructor
    · rintro ⟨r, n, hn, -⟩ l' hl'
      rcases hn with ⟨hnone, -⟩ | ⟨l'', m, hl'', hm, -⟩
      · cases hnone
      · obtain rfl := Option.some.inj hl'
        obtain rfl := Option.some.inj hl''
        exact htotal.mp ⟨m, hm⟩
    · intro hlen
      obtain ⟨n, hn⟩ := htotal.mpr (hlen l rfl)
      exact ⟨_, some n, .inr ⟨l, n, rfl, hn, rfl⟩, rfl⟩

def countOf (e : Diagnostic) : Nat := (e.native.map Native.count).getD 0

/-- The entry of a key says the key's class, and whether it blocks. -/
structure Booked (k : Key) (e : Diagnostic) : Prop where
  native : ∃ n, e.native = some n ∧ n.nativeClass = k.nativeClass ∧ n.blocking = blockingNative.contains n.nativeClass

def AllBooked (seen : Entries Key Diagnostic) : Prop := ∀ k e, seen.get k = some e → Booked k e

theorem countOf_countUp (h : Booked k e) : countOf (countUp e) = countOf e + 1 := by
  obtain ⟨n, hn, -⟩ := h.native
  rw [countOf, countOf, countUp, hn]
  rfl

theorem booked_countUp (h : Booked k e) : Booked k (countUp e) := by
  obtain ⟨n, hn, hclass, hblock⟩ := h.native
  exact ⟨⟨{ n with count := n.count + 1 }, by rw [countUp, hn]; rfl, hclass, hblock⟩⟩

theorem noted_ok {seen seen' : Entries Key Diagnostic} (hall : AllBooked seen)
    (h : noted d seen o = .ok seen') : ∃ e, seen' = seen.set (keyFor d o) e ∧ Booked (keyFor d o) e ∧
      countOf e = ((seen.get (keyFor d o)).map countOf).getD 0 + 1 := by
  rw [noted, book] at h
  cases hget : seen.get (keyFor d o) with
  | some e =>
    rw [keyFor] at hget
    rw [hget] at h
    exact ⟨countUp e, (Except.ok.inj h).symm, booked_countUp (hall _ e hget), countOf_countUp (hall _ e hget)⟩
  | none =>
    rw [keyFor] at hget
    rw [hget, bind_ok] at h
    obtain ⟨n, -, h⟩ := h
    exact ⟨_, (pure_ok.mp h).symm, ⟨⟨_, rfl, rfl, rfl⟩⟩, rfl⟩

theorem allBooked_set (hall : AllBooked seen) (he : Booked k e) :
    AllBooked (seen.set k e) := by
  intro k' e' hget
  rw [Entries.get_set] at hget
  split at hget
  · next heq =>
    obtain rfl := Option.some.inj hget
    exact heq ▸ he
  · exact hall k' e' hget

def total (seen : Entries Key Diagnostic) : Nat := (seen.map (fun f => countOf f.2)).sum

theorem total_set
    (he : countOf e = ((seen.get k).map countOf).getD 0 + 1) : total (seen.set k e) = total seen + 1 := by
  induction seen with
  | nil => simpa [total, Entries.set] using he
  | cons f seen ih =>
    rw [Entries.get_cons] at he
    rw [Entries.set]
    split
    · next hf =>
      rw [if_pos hf] at he
      have hone : countOf e = countOf f.2 + 1 := he
      simp only [total, List.map_cons, List.sum_cons, hone]
      omega
    · next hf =>
      rw [if_neg hf] at he
      have hrest := ih he
      simp only [total, List.map_cons, List.sum_cons] at hrest ⊢
      omega

/-- What the entries of a list of lines hold: every line is one of its key's count. -/
structure Tallied (d : Digits) (os : List (ErrorText × Option ErrorText)) (seen : Entries Key Diagnostic) : Prop where
  keys : (seen.map Prod.fst).Nodup
  booked : AllBooked seen
  known : ∀ k, seen.get k = none ↔ k ∉ os.map (keyFor d)
  counts : ∀ k, ((seen.get k).map countOf).getD 0 = os.countP (fun o => keyFor d o == k)
  total : total seen = os.length

theorem tallied_noted {os : List (ErrorText × Option ErrorText)} {seen seen' : Entries Key Diagnostic}
    (ht : Tallied d os seen) (h : noted d seen o = .ok seen') :
    Tallied d (os ++ [o]) seen' := by
  obtain ⟨e, rfl, hbooked, hcount⟩ := noted_ok ht.booked h
  refine ⟨Entries.nodup_set ht.keys _ _, allBooked_set ht.booked hbooked, fun k => ?_, fun k => ?_, ?_⟩
  · rw [Entries.get_set, List.map_append, List.mem_append, not_or, ← ht.known]
    split
    · next heq => simp [heq]
    · next hne => simp [Ne.symm hne]
  · rw [Entries.get_set, List.countP_append, ← ht.counts]
    split
    · next heq =>
      subst heq
      simp [hcount]
    · next hne => simp [hne]
  · rw [total_set hcount, ht.total, List.length_append]
    rfl

theorem tallied_all {os before : List (ErrorText × Option ErrorText)} {seen seen' : Entries Key Diagnostic}
    (ht : Tallied d before seen) (h : os.foldlM (noted d) seen = .ok seen') : Tallied d (before ++ os) seen' := by
  induction os generalizing before seen with
  | nil =>
    rw [List.foldlM_nil, pure_ok] at h
    rw [List.append_nil]
    exact h ▸ ht
  | cons o os ih =>
    rw [List.foldlM_cons, bind_ok] at h
    obtain ⟨next, hnext, h⟩ := h
    rw [List.append_cons]
    exact ih (tallied_noted ht hnext) h

/-- The second scanner ends unless a key's first line has a number too long. -/
theorem noted_total (os : List (ErrorText × Option ErrorText)) {before : List (ErrorText × Option ErrorText)}
    (ht : Tallied d before seen) :
    (∃ r, os.foldlM (noted d) seen = .ok r) ↔
      ∀ pre o post, os = pre ++ o :: post → keyFor d o ∉ (before ++ pre).map (keyFor d) → Numbered d o.2 := by
  induction os generalizing before seen with
  | nil => exact ⟨fun _ pre o post heq => absurd heq (by simp), fun _ => ⟨seen, rfl⟩⟩
  | cons o os ih =>
    have hknown := ht.known (keyFor d o)
    rw [List.foldlM_cons]
    simp only [bind_ok]
    constructor
    · rintro ⟨r, next, hnext, hrest⟩ pre x post heq hnew
      cases pre with
      | nil =>
        obtain ⟨rfl, rfl⟩ := List.cons.inj heq
        rw [List.append_nil] at hnew
        exact (book_new (hknown.mpr hnew)).mp ⟨next, hnext⟩
      | cons y pre =>
        obtain ⟨rfl, rfl⟩ := List.cons.inj heq
        rw [List.append_cons] at hnew
        exact (ih (tallied_noted ht hnext)).mp ⟨r, hrest⟩ pre x post rfl hnew
    · intro h
      have hone : ∃ next, noted d seen o = .ok next := by
        cases hget : seen.get (keyFor d o) with
        | none => exact (book_new hget).mpr (h [] o os rfl (by rw [List.append_nil]; exact hknown.mp hget))
        | some e =>
          rw [keyFor] at hget
          exact ⟨_, by rw [noted, book, hget]⟩
      obtain ⟨next, hnext⟩ := hone
      have hrest := (ih (tallied_noted ht hnext)).mpr (fun pre x post heq hnew => by
        rw [← List.append_cons] at hnew
        exact h (o :: pre) x post (by rw [heq]; rfl) hnew)
      obtain ⟨r, hr⟩ := hrest
      exact ⟨r, next, hnext, hr⟩

def keptLines (d : Digits) (lines : List ErrorText) : List (ErrorText × Option ErrorText) :=
  (occurrences lines).filter (claims d)

def engineLines (d : Digits) (lines : List ErrorText) : List (ErrorText × Option ErrorText) :=
  (occurrences lines).filter (fun o => !claims d o)

/-- The kind and the message a kept line is reported with. -/
def reported (d : Digits) (o : ErrorText × Option ErrorText) : String × ErrorText :=
  (((claimed d o.1 o.2).getD ("", [])).1, trim ((claimed d o.1 o.2).getD ("", [])).2)

/-- Every error line is counted once: a kept one by a diagnostic of its own, another by its
key's entry; and no diagnostic counts more. -/
structure Accounted (d : Digits) (lines : List ErrorText) (parsed natives : List Diagnostic) : Prop where
  kept : parsed.map (fun e => (e.kind, e.msg)) = (keptLines d lines).map (reported d)
  booked : ∃ seen : Entries Key Diagnostic, natives = seen.map Prod.snd ∧ (seen.map Prod.fst).Nodup ∧
    ∀ k, ((seen.get k).map countOf).getD 0 = (engineLines d lines).countP (fun o => keyFor d o == k)
  total : parsed.length + (natives.map countOf).sum = (occurrences lines).length

/-- Every diagnostic is kept on one side, and what blocks is on the gating one. -/
structure SplitKept (errs : List Diagnostic) : Prop where
  kept : ((splitDiagnostics errs).1 ++ (splitDiagnostics errs).2).Perm errs
  gating : ∀ e ∈ errs, (∀ n, e.native = some n → n.nativeClass ∈ blockingNative) →
    e ∈ (splitDiagnostics errs).1 ∧ e ∉ (splitDiagnostics errs).2

/-- No location in user code whose line number is converted has one of more than 4300 digits:
of a line the first scanner keeps, or of the first line of its key in the second. -/
def NumbersFit (d : Digits) (lines : List ErrorText) : Prop :=
  (∀ o ∈ keptLines d lines, Numbered d o.2) ∧
    ∀ pre o post, engineLines d lines = pre ++ o :: post → keyFor d o ∉ pre.map (keyFor d) → Numbered d o.2

theorem diagnose_reported (h : diagnose d o = .ok e) :
    (e.kind, e.msg) = reported d o ∧ e.native = none := by
  rw [diagnose] at h
  cases hu : userLocation d o.2 with
  | none =>
    rw [hu] at h
    exact Except.ok.inj h ▸ ⟨rfl, rfl⟩
  | some l =>
    simp only [hu, bind_ok, pure_ok] at h
    obtain ⟨n, -, rfl⟩ := h
    exact ⟨rfl, rfl⟩

theorem tallied_nil : Tallied d [] [] :=
  ⟨List.nodup_nil, fun k e he => absurd he (by simp), fun k => by simp, fun k => by simp, rfl⟩

theorem split_kept {errs : List Diagnostic}
    (h : ∀ e ∈ errs, e.native = none ∨ ∃ k : Key, Booked k e) : SplitKept errs := by
  refine ⟨List.filter_append_perm gates errs, fun e he hblock => ?_⟩
  have hgates : gates e = true := by
    rcases h e he with hnone | ⟨k, hk⟩
    · rw [gates, hnone]
      rfl
    · obtain ⟨n, hn, -, hb⟩ := hk.native
      rw [gates, hn, Option.map_some, Option.getD_some, hb]
      exact List.contains_iff_mem.mpr (hblock n hn)
  refine ⟨List.mem_filter.mpr ⟨he, hgates⟩, fun hdebt => ?_⟩
  have hno := (List.mem_filter.mp hdebt).2
  rw [hgates] at hno
  exact absurd hno (by decide)

/-- The two scanners lose no error line and count none twice, and the split keeps what blocks
on the gating side, exactly when no line number is too long to convert. -/
theorem diagnostics_lossless (d : Digits) (stderr : ErrorText) :
    (∃ parsed natives, parseErrors d stderr = .ok parsed ∧ nativeErrors d stderr = .ok natives ∧
      Accounted d (splitLines stderr) parsed natives ∧ SplitKept (parsed ++ natives)) ↔
        NumbersFit d (splitLines stderr) := by
  have hparse : parseErrors d stderr = (keptLines d (splitLines stderr)).mapM (diagnose d) :=
    parseFrom_eq _ false (fun hskip => absurd hskip Bool.false_ne_true)
  have hnative : nativeFrom d false [] (splitLines stderr) = (engineLines d (splitLines stderr)).foldlM (noted d) [] :=
    nativeFrom_eq _ false [] (fun hskip => absurd hskip Bool.false_ne_true)
  have hkept : (∃ parsed, parseErrors d stderr = .ok parsed) ↔
      ∀ o ∈ keptLines d (splitLines stderr), Numbered d o.2 := by
    rw [hparse, mapM_total]
    exact forall₂_congr (fun o _ => diagnose_total)
  have hengine := noted_total (engineLines d (splitLines stderr)) (tallied_nil (d := d))
  simp only [List.nil_append] at hengine
  constructor
  · rintro ⟨parsed, natives, hp, hn, -⟩
    rw [nativeErrors, bind_ok] at hn
    obtain ⟨seen, hseen, -⟩ := hn
    exact ⟨hkept.mp ⟨parsed, hp⟩, hengine.mp ⟨seen, hnative ▸ hseen⟩⟩
  · rintro ⟨hfirst, hsecond⟩
    obtain ⟨parsed, hp⟩ := hkept.mpr hfirst
    obtain ⟨seen, hseen⟩ := hengine.mpr hsecond
    have hall := tallied_all tallied_nil hseen
    rw [List.nil_append] at hall
    have hmapped := hparse ▸ hp
    have hreported := mapM_map (g := reported d) (fun o e he => (diagnose_reported he).1) hmapped
    refine ⟨parsed, seen.map Prod.snd, hp, ?_, ⟨hreported, ⟨seen, rfl, hall.keys, hall.counts⟩, ?_⟩, split_kept ?_⟩
    · rw [nativeErrors, hnative, hseen]
      rfl
    · have hlen : parsed.length = (keptLines d (splitLines stderr)).length := by
        rw [← List.length_map (f := fun e : Diagnostic => (e.kind, e.msg)), hreported, List.length_map]
      have hcount : ((seen.map Prod.snd).map countOf).sum = (engineLines d (splitLines stderr)).length := by
        rw [← hall.total, total, List.map_map]
        rfl
      rw [hlen, hcount, keptLines, engineLines, ← List.length_append]
      exact (List.filter_append_perm (claims d) _).length_eq
    · intro e he
      rcases List.mem_append.mp he with he | he
      · obtain ⟨o, -, ho⟩ := mapM_mem hmapped he
        exact .inl (diagnose_reported ho).2
      · obtain ⟨f, hf, rfl⟩ := List.mem_map.mp he
        exact .inr ⟨f.1, hall.booked _ _ (Entries.get_of_mem hall.keys hf)⟩

theorem splitFrom_plain {current s : ErrorText} (hs : ∀ c ∈ s, isLineEnd c = false) (hne : current ++ s ≠ []) :
    splitFrom current s = [current.reverse ++ s] := by
  induction s generalizing current with
  | nil =>
    cases current with
    | nil => exact absurd rfl hne
    | cons c current => simp [splitFrom]
  | cons c s ih =>
    have hc := hs c List.mem_cons_self
    have hr : ∀ rest, c = '\r' → ¬ s = '\n' :: rest := by
      rintro rest rfl
      exact absurd hc (by decide)
    rw [splitFrom.eq_4 _ _ _ hr, hc, if_neg Bool.false_ne_true,
      ih (fun x hx => hs x (List.mem_cons_of_mem c hx)) (by simp)]
    simp

theorem lineDigits_all (hne : digits ≠ []) (hd : ∀ c ∈ digits, (d.value c).isSome = true)
    (hparen : d.value ')' = none) : lineDigits d (':' :: (digits ++ [')'])) = some digits := by
  have htake : (digits ++ [')']).takeWhile (fun c => (d.value c).isSome) = digits := by
    rw [List.takeWhile_append_of_pos hd]
    simp [hparen]
  rw [lineDigits]
  simp only [htake, List.drop_left, List.head?_cons]
  simp [hne]

theorem lineDigits_other {c : Char} (hc : c ≠ ':') (rest : ErrorText) : lineDigits d (c :: rest) = none := by
  rw [lineDigits]
  exact fun rest heq => hc (List.cons.inj heq).1

theorem at_overlong (h : lineDigits d (':' :: (digits ++ [')'])) = some digits) (hs : d.value '/' = none) :
    at? d ("   at: step (res://a.gd:".toList ++ (digits ++ [')'])) =
      some ⟨"step".toList, "res://a.gd".toList, digits⟩ := by
  have hslash : ∀ rest, lineDigits d (':' :: '/' :: rest) = none := by
    intro rest
    simp [lineDigits, hs]
  have hsource : source d [] ("res://a.gd:".toList ++ (digits ++ [')'])) = some ("res://a.gd".toList, digits) := by
    simp [source, lineDigits_other, hslash, h]
  have hplace : place d [] ("step (res://a.gd:".toList ++ (digits ++ [')'])) =
      some ⟨"step".toList, "res://a.gd".toList, digits⟩ := by
    have hparens : inParens d (" (res://a.gd:".toList ++ (digits ++ [')'])) =
        some ("res://a.gd".toList, digits) := hsource
    simp only [String.reduceToList, List.cons_append, List.nil_append] at hparens ⊢
    simp only [place, hparens]
    rfl
  exact hplace

/-- A script error whose location has this line number. -/
def misplaced (digits : ErrorText) : ErrorText :=
  "SCRIPT ERROR: Invalid call\n".toList ++ ("   at: step (res://a.gd:".toList ++ (digits ++ [')']))

theorem splitLines_misplaced (hd : ∀ c ∈ digits, isLineEnd c = false) :
    splitLines (misplaced digits) = ["SCRIPT ERROR: Invalid call".toList,
      "   at: step (res://a.gd:".toList ++ (digits ++ [')'])] := by
  have hlast : splitFrom [] ("   at: step (res://a.gd:".toList ++ (digits ++ [')'])) =
      ["   at: step (res://a.gd:".toList ++ (digits ++ [')'])] := by
    rw [splitFrom_plain _ (by simp)]
    · rfl
    · intro c hc
      simp only [List.mem_append] at hc
      rcases hc with hc | hc | hc
      · exact forall_of_all (p := fun c => isLineEnd c = false) (by decide) c hc
      · exact hd c hc
      · exact forall_of_all (p := fun c => isLineEnd c = false) (by decide) c hc
  calc splitLines (misplaced digits)
      = "SCRIPT ERROR: Invalid call".toList :: splitFrom [] ("   at: step (res://a.gd:".toList ++
        (digits ++ [')'])) := rfl
    _ = _ := by rw [hlast]

/-- No diagnostics come of a line number too long to convert. -/
theorem misplaced_unread (hd : ∀ c ∈ digits, (d.value c).isSome = true ∧ isLineEnd c = false)
    (hlong : 4300 < digits.length) (hparen : d.value ')' = none) (hslash : d.value '/' = none) :
    ¬ ∃ parsed, parseErrors d (misplaced digits) = .ok parsed := by
  rintro ⟨parsed, hparsed⟩
  have hne : digits ≠ [] := by
    rintro rfl
    exact absurd hlong (by decide)
  have hat := at_overlong (lineDigits_all hne (fun c hc => (hd c hc).1) hparen) hslash
  have huser : userLocation d (some ("   at: step (res://a.gd:".toList ++ (digits ++ [')']))) =
      some ⟨"step".toList, "res://a.gd".toList, digits⟩ := by
    rw [userLocation, Option.bind_some, hat]
    rfl
  rw [parseErrors, splitLines_misplaced (fun c hc => (hd c hc).2), parseFrom, List.head?_cons, huser] at hparsed
  have hclaimed : claimed d "SCRIPT ERROR: Invalid call".toList
      (some ("   at: step (res://a.gd:".toList ++ (digits ++ [')']))) =
      some ("runtime", "Invalid call".toList) := rfl
  simp only [hclaimed, bind_ok, lineNumber, ensure_ok] at hparsed
  obtain ⟨-, ⟨-, hlen, -⟩, -⟩ := hparsed
  omega

/-- A line number of 4301 nines: the error is in neither list. -/
theorem overlong_unread : ¬ ∃ parsed natives,
    parseErrors Novel.asciiDigits (misplaced (List.replicate 4301 '9')) = .ok parsed ∧
    nativeErrors Novel.asciiDigits (misplaced (List.replicate 4301 '9')) = .ok natives ∧
    Accounted Novel.asciiDigits (splitLines (misplaced (List.replicate 4301 '9'))) parsed natives := by
  rintro ⟨parsed, natives, hparsed, -⟩
  refine misplaced_unread (fun c hc => ?_) ?_ (by decide) (by decide) ⟨parsed, hparsed⟩
  · obtain rfl := List.eq_of_mem_replicate hc
    decide
  · rw [List.length_replicate]
    decide

theorem gates_booked {k : Key} {e : Diagnostic} (h : Booked k e) : gates e = true ↔ k.nativeClass ∈ blockingNative := by
  obtain ⟨n, hn, hclass, hblock⟩ := h.native
  rw [gates, hn, Option.map_some, Option.getD_some, hblock, hclass]
  exact List.contains_iff_mem

/-- A run of the engine is stopped exactly by an error line the first scanner claims (a script
error, a failed load or a `push_error`) or one of a class that blocks, wherever its location
points: whatever is printed around it, and however often. -/
theorem gating_iff {stderr : ErrorText} {parsed natives : List Diagnostic} (hp : parseErrors d stderr = .ok parsed)
    (hn : nativeErrors d stderr = .ok natives) :
    (splitDiagnostics (parsed ++ natives)).1 ≠ [] ↔
      ∃ o ∈ occurrences (splitLines stderr), claims d o = true ∨ (keyFor d o).nativeClass ∈ blockingNative := by
  have hmapped : (keptLines d (splitLines stderr)).mapM (diagnose d) = .ok parsed :=
    (parseFrom_eq _ false (fun hskip => absurd hskip Bool.false_ne_true)).symm.trans hp
  rw [nativeErrors, bind_ok] at hn
  obtain ⟨seen, hseen, hnatives⟩ := hn
  obtain rfl := pure_ok.mp hnatives
  rw [nativeFrom_eq _ false [] (fun hskip => absurd hskip Bool.false_ne_true)] at hseen
  have hall := tallied_all tallied_nil hseen
  rw [List.nil_append] at hall
  constructor
  · intro hne
    obtain ⟨e, he⟩ := List.exists_mem_of_ne_nil _ hne
    obtain ⟨hin, hgates⟩ := List.mem_filter.mp he
    rcases List.mem_append.mp hin with hin | hin
    · obtain ⟨o, ho, -⟩ := mapM_mem hmapped hin
      obtain ⟨hline, hclaims⟩ := List.mem_filter.mp ho
      exact ⟨o, hline, .inl hclaims⟩
    · obtain ⟨f, hf, rfl⟩ := List.mem_map.mp hin
      have hget := Entries.get_of_mem hall.keys hf
      have hknown : ¬seen.get f.1 = none := by
        rw [hget]
        exact Option.some_ne_none _
      rw [hall.known, not_not] at hknown
      obtain ⟨o, ho, hkey⟩ := List.mem_map.mp hknown
      refine ⟨o, (List.mem_filter.mp ho).1, .inr ?_⟩
      rw [hkey]
      exact (gates_booked (hall.booked _ _ hget)).mp hgates
  · rintro ⟨o, ho, hwhy⟩
    cases hclaims : claims d o with
    | true =>
      obtain ⟨e, he, hdiagnosed⟩ := mapM_of_mem hmapped (List.mem_filter.mpr ⟨ho, hclaims⟩)
      have hgates : gates e = true := by rw [gates, (diagnose_reported hdiagnosed).2]; rfl
      exact List.ne_nil_of_mem (List.mem_filter.mpr ⟨List.mem_append_left _ he, hgates⟩)
    | false =>
      have hblock : (keyFor d o).nativeClass ∈ blockingNative :=
        hwhy.resolve_left (by rw [hclaims]; exact Bool.false_ne_true)
      have hin : keyFor d o ∈ (engineLines d (splitLines stderr)).map (keyFor d) :=
        List.mem_map_of_mem (List.mem_filter.mpr ⟨ho, by rw [hclaims]; rfl⟩)
      cases hget : seen.get (keyFor d o) with
      | none => exact absurd hin ((hall.known _).mp hget)
      | some e =>
        have hgates := (gates_booked (hall.booked _ _ hget)).mpr hblock
        have he : e ∈ seen.map Prod.snd := List.mem_map_of_mem (Entries.mem_of_get hget)
        exact List.ne_nil_of_mem (List.mem_filter.mpr ⟨List.mem_append_right _ he, hgates⟩)

/-- A script error, a deferred call that fails twice, and an error of user code that stops
nothing. -/
def mixedLines : List ErrorText :=
  ["SCRIPT ERROR: Parse Error".toList, "   at: step (res://a.gd:3)".toList,
    "ERROR: x".toList, "   at: f (core/object/message_queue.cpp:7)".toList,
    "ERROR: x".toList, "   at: f (core/object/message_queue.cpp:7)".toList,
    "ERROR: y".toList, "   at: g (res://b.gd:9)".toList]

def mixedStderr : ErrorText := mixedLines.flatMap (fun line => line ++ ['\n'])

def mixedParsed : List Diagnostic := [⟨"parse", "Parse Error".toList, some "res://a.gd".toList, some 3, none⟩]

def mixedNatives : List Diagnostic :=
  [⟨"native", "x".toList, none, none, some ⟨.deferredCall, true, some "f (core/object/message_queue.cpp:7)".toList, 2⟩⟩,
    ⟨"native", "y".toList, some "res://b.gd".toList, some 9,
      some ⟨.unclassified, false, some "g (res://b.gd:9)".toList, 1⟩⟩]

theorem split_mixed : splitLines mixedStderr = mixedLines := by
  simp only [mixedStderr, mixedLines, String.reduceToList]
  decide

theorem gating_iff_user :
    parseErrors Novel.asciiDigits mixedStderr = .ok mixedParsed ∧
    nativeErrors Novel.asciiDigits mixedStderr = .ok mixedNatives ∧
    ((splitDiagnostics (mixedParsed ++ mixedNatives)).1 ≠ [] ↔
      ∃ o ∈ occurrences (splitLines mixedStderr),
        claims Novel.asciiDigits o = true ∨ (keyFor Novel.asciiDigits o).nativeClass ∈ blockingNative) := by
  have hparsed : parseErrors Novel.asciiDigits mixedStderr = .ok mixedParsed := by
    rw [parseErrors, split_mixed]
    simp only [mixedLines, mixedParsed, String.reduceToList]
    decide
  have hnatives : nativeErrors Novel.asciiDigits mixedStderr = .ok mixedNatives := by
    rw [nativeErrors, split_mixed]
    simp only [mixedLines, mixedNatives, String.reduceToList]
    decide
  exact ⟨hparsed, hnatives, gating_iff hparsed hnatives⟩

end AItelier.Render
