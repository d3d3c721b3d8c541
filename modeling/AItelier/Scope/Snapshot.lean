import AItelier.Lib.Bytes
import AItelier.Lib.Value
import AItelier.State.Text

namespace AItelier.Scope

open AItelier.Lib AItelier.State

/-- What the host supplies: UTF-8, the characters of `\w`, and the digest of a document. -/
structure Host where
  strict : Bytes → Option String
  lossy : Bytes → String
  agrees : ∀ bytes text, strict bytes = some text → lossy bytes = text
  faithful : ∀ a b text, strict a = some text → strict b = some text → a = b
  word : Char → Bool
  digest : Dict → String
  hex : ∀ d, isHexOf 64 (digest d) = true

/-- A Python exception: its type and its text, and whether it is a `ValueError`, a
`TypeError` or a `KeyError`. -/
structure Fault where
  type : String
  text : String
  caught : Bool
  deriving DecidableEq, Repr

def Fault.render (f : Fault) : String := f.type ++ ": " ++ f.text

def valueError (text : String) : Fault := ⟨"ValueError", text, true⟩

def unicodeDecodeError : Fault := ⟨"UnicodeDecodeError", "'utf-8' codec can't decode", true⟩

/-- The components of `Path(path)`. -/
def parts (path : String) : List (List Char) :=
  (path.toList.splitOn '/').filter (fun p => decide (p ≠ [] ∧ p ≠ ['.']))

/-- `Path(path).suffix`. -/
def suffix (path : String) : String :=
  match (parts path).getLast? with
  | none => ""
  | some name =>
    let extension := (name.reverse.takeWhile (fun c => c != '.')).reverse
    if extension = [] ∨ name.length ≤ extension.length + 1 then "" else String.ofList ('.' :: extension)

/-- `_TEXT`. -/
def TEXT : List String := [".gd", ".tscn", ".tres", ".godot"]

def isText (path : String) : Bool := decide (suffix path ∈ TEXT)

structure Entry where
  mode : String
  kind : String
  path : Bytes
  content : Bytes
  deriving DecidableEq, Repr

/-- The tree of a commit, as `git ls-tree -rz` lists it. -/
structure Tree where
  entries : List Entry
  distinct : (entries.map Entry.path).Nodup

def Tree.entry (t : Tree) (path : Bytes) : Option Entry := t.entries.find? (fun e => decide (e.path = path))

structure Snapshot where
  files : List String
  texts : List (String × String)

/-- One entry: its path, and its text where it is of a text kind. -/
def readEntry (host : Host) (e : Entry) : Except Fault (String × Option String) := do
  let path ← orElse (host.strict e.path) unicodeDecodeError
  ensure (e.kind = "blob" ∧ e.mode ≠ "120000") (valueError ("unsupported Git entry: " ++ path))
  if isText path then do
    let text ← orElse (host.strict e.content) unicodeDecodeError
    return (path, some text)
  else return (path, none)

/-- `_snapshot`. -/
def snapshot (host : Host) (t : Tree) : Except Fault Snapshot := do
  let rows ← t.entries.mapM (readEntry host)
  return ⟨rows.map Prod.fst, rows.filterMap (fun r => r.2.map (fun text => (r.1, text)))⟩

/-- `git diff --name-only --no-renames`, decoded. -/
def changedFiles (host : Host) (base head : Tree) : Except Fault (List String) :=
  (((base.entries ++ head.entries).map Entry.path).filter (fun p => decide (base.entry p ≠ head.entry p))).mapM
    (fun p => orElse (host.strict p) unicodeDecodeError)

def resourceScheme : List Char := "res://".toList

/-- A character of `[^\s"'\)\],;]`. -/
def isResourceChar (c : Char) : Bool := !(isSpace c || decide (c ∈ ['"', '\'', ')', ']', ',', ';']))

/-- `_RESOURCE.findall`, without the scheme: the first argument is what is left of the
last match. -/
def resources : Nat → List Char → List String
  | _, [] => []
  | n + 1, _ :: cs => resources n cs
  | 0, c :: cs =>
    let found := ((c :: cs).drop 6).takeWhile isResourceChar
    if resourceScheme.isPrefixOf (c :: cs) ∧ found ≠ [] then
      String.ofList found :: resources (5 + found.length) cs
    else resources 0 cs

def resourcesOf (text : String) : List String := resources 0 text.toList

def isNameStart (c : Char) : Bool := ('a' ≤ c && c ≤ 'z') || ('A' ≤ c && c ≤ 'Z') || c == '_'

/-- `_TOKEN.findall`: the runs of word characters that start like a name. -/
def tokens (word : Char → Bool) (text : String) : List String :=
  ((text.toList.splitOnP (fun c => !word c)).filter (fun run => run.head?.any isNameStart)).map String.ofList

/-- A keyword after `^\s*` and at least one blank after it: what follows, and how much
was read. -/
def afterKeyword (keyword cs : List Char) : Option (List Char × Nat) :=
  let blank := cs.takeWhile isSpace
  let rest := cs.drop blank.length
  let gap := (rest.drop keyword.length).takeWhile isSpace
  if keyword.isPrefixOf rest ∧ gap ≠ [] then
    some (rest.drop (keyword.length + gap.length), blank.length + keyword.length + gap.length)
  else none

/-- `_CLASS` at the start of a line. -/
def classAt (word : Char → Bool) (cs : List Char) : Option (String × Nat) :=
  match afterKeyword "class_name".toList cs with
  | some (rest, n) =>
    let name := rest.takeWhile word
    if name = [] then none else some (String.ofList name, n + name.length)
  | none => none

/-- `_CLASS.findall`: whether a line starts here, and what is left of the last match. -/
def classNames (word : Char → Bool) : Bool → Nat → List Char → List String
  | _, _, [] => []
  | _, n + 1, c :: cs => classNames word (c == '\n') n cs
  | lineStart, 0, c :: cs =>
    match if lineStart then classAt word (c :: cs) else none with
    | some (name, n) => name :: classNames word (c == '\n') (n - 1) cs
    | none => classNames word (c == '\n') 0 cs

def classNamesOf (word : Char → Bool) (text : String) : List String := classNames word true 0 text.toList

def isQuote (c : Char) : Bool := c == '"' || c == '\''

/-- `^\s*extends\s+["'](?!res://)`, in any line. -/
def extendsRelative : Bool → List Char → Bool
  | _, [] => false
  | lineStart, c :: cs =>
    (lineStart && match afterKeyword "extends".toList (c :: cs) with
      | some (q :: rest, _) => isQuote q && !resourceScheme.isPrefixOf rest
      | _ => false) || extendsRelative (c == '\n') cs

def LOADS : List (List Char) :=
  ["load".toList, "preload".toList, "load_threaded_request".toList, "set_script".toList,
    "change_scene_to_file".toList]

/-- `["']res://[^"']+["']\s*\)`. -/
def literalArgument (cs : List Char) : Bool :=
  match cs with
  | q :: rest =>
    let path := (rest.drop 6).takeWhile (fun c => !isQuote c)
    isQuote q && resourceScheme.isPrefixOf rest && path != [] &&
      match rest.drop (6 + path.length) with
      | q' :: rest => isQuote q' && (rest.dropWhile isSpace).head? == some ')'
      | [] => false
  | [] => false

/-- Whether a call of `_LOAD` has an argument that is no literal resource. -/
def dynamicLoad (word : Char → Bool) : Bool → List Char → Bool
  | _, [] => false
  | inWord, c :: cs =>
    let name := (c :: cs).takeWhile word
    let rest := ((c :: cs).drop name.length).dropWhile isSpace
    (!inWord && decide (name ∈ LOADS) && rest.head? == some '(' &&
      !literalArgument ((rest.drop 1).dropWhile isSpace)) || dynamicLoad word (word c) cs

/-- `part in text`. -/
def hasPart (part : String) (text : String) : Bool := text.toList.tails.any (fun cs => part.toList.isPrefixOf cs)

/-- The line boundaries of `splitlines`; a CRLF makes one empty line more here. -/
def isLineBreak (c : Char) : Bool :=
  decide (c.toNat ∈ [0x0a, 0x0b, 0x0c, 0x0d, 0x1c, 0x1d, 0x1e, 0x85, 0x2028, 0x2029])

def lines (text : String) : List String := (text.toList.splitOnP isLineBreak).map String.ofList

end AItelier.Scope
