import Mathlib.Data.String.Basic
import Mathlib.Data.List.Sort

namespace AItelier.Lib

/-- The JSON values the store writes: text, integers, booleans and containers. -/
inductive Json
  | null
  | bool (b : Bool)
  | int (i : Int)
  | str (s : String)
  | arr (items : List Json)
  | obj (fields : List (String × Json))

namespace Json

def ofOption (o : Option String) : Json :=
  match o with
  | some s => .str s
  | none => .null

def ofNatOption (o : Option Nat) : Json :=
  match o with
  | some n => .int n
  | none => .null

def ofIntOption (o : Option Int) : Json :=
  match o with
  | some i => .int i
  | none => .null

def strings (l : List String) : Json :=
  .arr (l.map .str)

/-- `value.get(name)` of an object, `null` for a missing field. -/
def get (name : String) : Json → Json
  | .obj fields => ((fields.find? (fun f => f.1 = name)).map Prod.snd).getD .null
  | _ => .null

def hexDigit (n : Nat) : Char :=
  if n < 10 then Char.ofNat (48 + n) else Char.ofNat (87 + n)

/-- `json.dumps` with `ensure_ascii=False`: only quotes, backslashes and the
control characters below U+0020 are escaped. -/
def escapeChar (c : Char) : List Char :=
  if c = '"' then ['\\', '"']
  else if c = '\\' then ['\\', '\\']
  else if c = '\n' then ['\\', 'n']
  else if c = '\r' then ['\\', 'r']
  else if c = '\t' then ['\\', 't']
  else if c.toNat = 8 then ['\\', 'b']
  else if c.toNat = 12 then ['\\', 'f']
  else if c.toNat < 32 then ['\\', 'u', '0', '0', hexDigit (c.toNat / 16), hexDigit (c.toNat % 16)]
  else [c]

def quoted (s : String) : List Char :=
  '"' :: (s.toList.flatMap escapeChar ++ ['"'])

def joinComma : List (List Char) → List Char
  | [] => []
  | [x] => x
  | x :: y :: rest => x ++ ',' :: joinComma (y :: rest)

mutual

def render : Json → List Char
  | .null => ['n', 'u', 'l', 'l']
  | .bool true => ['t', 'r', 'u', 'e']
  | .bool false => ['f', 'a', 'l', 's', 'e']
  | .int i => (toString i).toList
  | .str s => quoted s
  | .arr items => '[' :: (joinComma (renderItems items) ++ [']'])
  | .obj fields =>
    let sorted := (renderFields fields).insertionSort (fun a b => a.1.toList ≤ b.1.toList)
    '\x7b' :: (joinComma (sorted.map (fun f => quoted f.1 ++ ':' :: f.2)) ++ ['\x7d'])

def renderItems : List Json → List (List Char)
  | [] => []
  | j :: rest => render j :: renderItems rest

def renderFields : List (String × Json) → List (String × List Char)
  | [] => []
  | (name, j) :: rest => (name, render j) :: renderFields rest

end

end Json

/-- `json.dumps` with sorted keys and no blanks. -/
def canonical (j : Json) : String :=
  String.ofList j.render

end AItelier.Lib
