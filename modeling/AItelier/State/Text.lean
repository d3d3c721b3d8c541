import AItelier.Lib.Outcome
import AItelier.Lib.Json
import AItelier.Lib.Value

namespace AItelier.State

open AItelier.Lib

/-- Pairs of names are the keys of most tables. -/
instance names_lawful : LawfulBEq (String × String) := inferInstance

/-- The stable codes that start a `ClaimError` message. -/
inductive ClaimCode
  | adminRequired | alreadyHeld | alreadyOwner | attemptNotActive | claimNotLive | claimRequired
  | claimedByOther | driverIdentityRequired | fenceRequired | handoffClosed | handoffExpired
  | handoffPending | leaseNotExpired | nodeClosed | notAttemptOwner | notClaimOwner | notExternal
  | notHandoffOwner | notHandoffTarget | notOwner | notProjectMember | notYourSubagent
  | overrideReasonRequired | ownerNotOffline | packageMismatch | requestKeyReused | revisionChanged
  | sharedIdentity | staleFence | workspaceInUse
  deriving DecidableEq, Repr

/-- What a refused transaction raises. `claim` is a `StateConflict` with a code;
`integrity` is a constraint of the schema that no code path catches. -/
inductive StateError
  | graph (message : String)
  | conflict (message : String)
  | notFound (message : String)
  | claim (code : ClaimCode) (detail : String)
  | integrity (constraint : String)
  deriving DecidableEq, Repr

abbrev Result := Except StateError

/-- Python's `repr` of an identifier that passed `key`. -/
def quote (s : String) : String :=
  "'" ++ s ++ "'"

/-- Python's truth value of an optional text. -/
def truthy (o : Option String) : Bool :=
  match o with
  | some s => s ≠ ""
  | none => false

/-- The characters `str.strip` removes. -/
def isSpace (c : Char) : Bool :=
  let n := c.toNat
  (9 ≤ n && n ≤ 13) || (28 ≤ n && n ≤ 32) || n = 0x85 || n = 0xA0 || n = 0x1680 ||
    (0x2000 ≤ n && n ≤ 0x200A) || n = 0x2028 || n = 0x2029 || n = 0x202F || n = 0x205F || n = 0x3000

def strip (s : String) : String :=
  String.ofList ((s.toList.dropWhile isSpace).reverse.dropWhile isSpace).reverse

def isAlnum (c : Char) : Bool :=
  ('a' ≤ c && c ≤ 'z') || ('A' ≤ c && c ≤ 'Z') || ('0' ≤ c && c ≤ '9')

def isKeyChar (c : Char) : Bool :=
  isAlnum c || c = '_' || c = '.' || c = '-'

/-- `KEY.fullmatch`. -/
def isKey (s : String) : Bool :=
  match s.toList with
  | [] => false
  | c :: rest => isAlnum c && rest.all isKeyChar && rest.length ≤ 127

def isHex (c : Char) : Bool :=
  ('0' ≤ c && c ≤ '9') || ('a' ≤ c && c ≤ 'f')

def isHexList (n : Nat) (l : List Char) : Bool :=
  l.length = n && l.all isHex

/-- Exactly `n` lowercase hexadecimal digits. -/
def isHexOf (n : Nat) (s : String) : Bool :=
  isHexList n s.toList

def isHexText (n : Nat) : Value → Bool
  | .str s => isHexOf n s
  | _ => false

def sortTexts (texts : List String) : List String :=
  texts.insertionSort (fun a b => a.toList ≤ b.toList)

def key (value label : String) : Result String := do
  ensure (isKey value) (.graph (label ++
    " must be 1-128 letters/digits/._-, starting with a letter or digit"))
  return value

def text (value label : String) (maximum : Nat) : Result String := do
  ensure (strip value ≠ "" ∧ value.toList.length ≤ maximum)
    (.graph (label ++ " must be nonempty text of at most " ++ toString maximum ++ " characters"))
  return strip value

def integer (value : Int) (label : String) (low high : Int) : Result Int := do
  ensure (low ≤ value ∧ value ≤ high) (.graph (label ++ " must be an integer between " ++
    toString low ++ " and " ++ toString high))
  return value

/-- Text that is only bounded, as instructions, details and workspaces are. -/
def bounded (value : String) (maximum : Nat) (message : String) : Result Unit :=
  ensure (value.toList.length ≤ maximum) (.graph message)

/-- `artifact_ref`: an exact Git commit or SHA-256 digest. -/
def artifactRef (value : String) : Result String := do
  ensure (isHexOf 40 value ∨ isHexOf 64 value)
    (.graph "artifact_ref must be an exact lowercase Git SHA or SHA-256 digest")
  return value

/-- Unicode general categories Cc and Cf (a `Char` is never a surrogate). -/
def isControl (c : Char) : Bool :=
  let n := c.toNat
  n < 0x20 || (0x7F ≤ n && n ≤ 0x9F) || n = 0xAD || (0x600 ≤ n && n ≤ 0x605) || n = 0x61C ||
    n = 0x6DD || n = 0x70F || n = 0x890 || n = 0x891 || n = 0x8E2 || n = 0x180E ||
    (0x200B ≤ n && n ≤ 0x200F) || (0x202A ≤ n && n ≤ 0x202E) || (0x2060 ≤ n && n ≤ 0x2064) ||
    (0x2066 ≤ n && n ≤ 0x206F) || n = 0xFEFF || (0xFFF9 ≤ n && n ≤ 0xFFFB) || n = 0x110BD ||
    n = 0x110CD || (0x13430 ≤ n && n ≤ 0x1343F) || (0x1BCA0 ≤ n && n ≤ 0x1BCA3) ||
    (0x1D173 ≤ n && n ≤ 0x1D17A) || n = 0xE0001 || (0xE0020 ≤ n && n ≤ 0xE007F)

def evidenceDirectorIdentity (value : Option String) : Result (Option String) :=
  match value with
  | none => .ok none
  | some v => do
    ensure (strip v ≠ "" ∧ v.toList.length ≤ 320 ∧ v.toList.all (fun c => !isControl c))
      (.graph "director_identity must be nonempty text of at most 320 characters without controls")
    return some (strip v)

/-- Microseconds since the epoch; fixed-width UTC text in the store, so text
order is time order. -/
abbrev Stamp := Nat

def addSeconds (value : Stamp) (seconds : Nat) : Stamp :=
  value + seconds * 1000000

def pad (width n : Nat) : String :=
  let digits := (toString n).toList
  String.ofList (List.replicate (width - digits.length) '0' ++ digits)

/-- `strftime` of the UTC moment: days to a proleptic Gregorian date, then the
time of day. -/
def stampText (t : Stamp) : String :=
  let seconds := t / 1000000
  let z := seconds / 86400 + 719468
  let era := z / 146097
  let doe := z - era * 146097
  let yoe := (doe - doe / 1460 + doe / 36524 - doe / 146096) / 365
  let doy := doe - (365 * yoe + yoe / 4 - yoe / 100)
  let mp := (5 * doy + 2) / 153
  let day := doy - (153 * mp + 2) / 5 + 1
  let month := if mp < 10 then mp + 3 else mp - 9
  let year := yoe + era * 400 + (if month ≤ 2 then 1 else 0)
  let tod := seconds % 86400
  pad 4 year ++ "-" ++ pad 2 month ++ "-" ++ pad 2 day ++ "T" ++ pad 2 (tod / 3600) ++ ":" ++
    pad 2 (tod / 60 % 60) ++ ":" ++ pad 2 (tod % 60) ++ "." ++ pad 6 (t % 1000000) ++ "+00:00"

example : stampText 1760054400123456 = "2025-10-10T00:00:00.123456+00:00" := by decide

/-- What the host supplies: SHA-256 of a text or of bytes (lowercase hex), the
presence thresholds and whether driver identity is on. -/
structure Host where
  sha256 : String → String
  sha256Bytes : List UInt8 → String
  onlineSeconds : Nat
  staleSeconds : Nat
  waitGraceSeconds : Nat
  driverIdentity : Bool

def Host.digest (host : Host) (value : Json) : String :=
  host.sha256 (canonical value)

end AItelier.State
