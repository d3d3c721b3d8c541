import AItelier.Lib.Run
import AItelier.Lib.Table
import AItelier.State.Text

namespace AItelier.State

open AItelier.Lib

abbrev Bytes := List UInt8

/-- The `codec` column. The schema admits the first two; `other` is what damage can leave. -/
inductive Codec
  | raw | zstdPrefix
  | other (name : String)
  deriving DecidableEq, Repr

/-- A row of `state_git_bundle_store`. -/
structure BundleRow where
  bundleSha256 : String
  codec : Codec
  baseSha256 : Option String
  rawSize : Int
  payload : Bytes
  deriving DecidableEq, Repr

/-- The zstandard package. A raised `ZstdError` is the error case, with its text. -/
structure Zstd where
  installed : Bool
  frameContentSize : Bytes → Except String Int
  compress : Bytes → Bytes → Bytes
  decompress : Bytes → Bytes → Int → Except String Bytes

/-- `hashlib.sha256(..).hexdigest()`. -/
structure Sha256 where
  hexdigest : Bytes → String
  hex : ∀ b, isHexOf 64 (hexdigest b)

def maxBundleBytes : Int := 256 * 1024 * 1024
def keyframeMaxDependents : Nat := 200
def keyframeCandidates : Nat := 2

def requireZstd (z : Zstd) : Result Unit :=
  ensure z.installed (.conflict "Git bundle store codec unavailable: zstandard is not installed")

def encodeDelta (z : Zstd) (base raw : Bytes) : Result Bytes := do
  requireZstd z
  return z.compress base raw

def zstdFailure (text : String) : StateError :=
  .conflict ("Git bundle store delta does not decode: " ++ String.ofList (text.toList.take 200))

def decodeDelta (z : Zstd) (base payload : Bytes) (rawSize : Int) : Result Bytes := do
  requireZstd z
  let declared ← (z.frameContentSize payload).mapError zstdFailure
  ensure (declared = rawSize) (.conflict "Git bundle store delta declares a different size")
  let data ← (z.decompress base payload rawSize).mapError zstdFailure
  ensure ((data.length : Int) = rawSize) (.conflict "Git bundle store delta decodes to a different size")
  return data

def storeEntry (t : List BundleRow) (digest : String) : Option BundleRow :=
  lookup BundleRow.bundleSha256 t digest

/-- A verified raw keyframe's bytes. -/
def keyframeBytes (h : Sha256) (entry : Option BundleRow) (digest : String) : Result Bytes := do
  let entry ← orElse entry (.conflict "Git bundle store delta base is missing")
  ensure (entry.bundleSha256 = digest ∧ entry.codec = .raw ∧ entry.baseSha256 = none)
    (.conflict "Git bundle store delta base is not a raw keyframe")
  ensure ((entry.payload.length : Int) = entry.rawSize ∧ h.hexdigest entry.payload = digest)
    (.conflict "Git bundle store delta base does not match its digest")
  return entry.payload

/-- What the row says its bytes are, before the digest is compared. -/
def restore (z : Zstd) (h : Sha256) (t : List BundleRow) (entry : BundleRow) (digest : String) :
    Result Bytes :=
  match entry.codec, entry.baseSha256 with
  | .raw, none => .ok entry.payload
  | .zstdPrefix, some base =>
    if base = digest then .error (.conflict "Git bundle store row has an unknown codec or base")
    else do
      let keyframe ← keyframeBytes h (storeEntry t base) base
      decodeDelta z keyframe entry.payload entry.rawSize
  | _, _ => .error (.conflict "Git bundle store row has an unknown codec or base")

def loadStoredBundle (z : Zstd) (h : Sha256) (t : List BundleRow) (digest : String) : Result Bytes := do
  let entry ← orElse (storeEntry t digest) (.conflict "Git bundle store has no bytes for this digest")
  ensure (entry.bundleSha256 = digest ∧ 0 < entry.rawSize ∧ entry.rawSize ≤ maxBundleBytes)
    (.conflict "Git bundle store row is malformed")
  let data ← restore z h t entry digest
  ensure ((data.length : Int) = entry.rawSize ∧ h.hexdigest data = digest)
    (.conflict "Git bundle store bytes do not match their digest")
  return data

def dependents (t : List BundleRow) (digest : String) : Nat :=
  t.countP (fun d => d.baseSha256 = some digest)

/-- The keyframes `store_bundle` tries: raw, within a factor two of the size, not
yet full, the latest first. -/
def keyframesFor (t : List BundleRow) (raw : Bytes) : List String :=
  ((t.reverse.filter fun k => k.codec = .raw ∧ ((raw.length + 1) / 2 : Int) ≤ k.rawSize ∧
      k.rawSize ≤ (raw.length * 2 : Int) ∧ dependents t k.bundleSha256 < keyframeMaxDependents).take
    keyframeCandidates).map BundleRow.bundleSha256

/-- One round of the loop: the delta against this keyframe, where it is kept. A delta
above a quarter of the raw size, or one that does not decode back, is passed over. -/
def tryKeyframe (z : Zstd) (h : Sha256) (t : List BundleRow) (raw : Bytes) (base : String) :
    Result (Option Bytes) :=
  match keyframeBytes h (storeEntry t base) base with
  | .error _ => .ok none
  | .ok keyframe => do
    let payload ← encodeDelta z keyframe raw
    if raw.length < 4 * payload.length then return none
    if decodeDelta z keyframe payload raw.length = .ok raw then return some payload
    return none

def findDelta (z : Zstd) (h : Sha256) (t : List BundleRow) (raw : Bytes) :
    List String → Result (Option (String × Bytes))
  | [] => .ok none
  | base :: rest => do
    match ← tryKeyframe z h t raw base with
    | some payload => return some (base, payload)
    | none => findDelta z h t raw rest

/-- The `INSERT`, with the constraints of the table and its depth-one trigger. -/
def insertBundle (t : List BundleRow) (row : BundleRow) : Result (List BundleRow) := do
  ensure (storeEntry t row.bundleSha256 = none) (.integrity "UNIQUE bundle_sha256")
  ensure (isHexOf 64 row.bundleSha256) (.integrity "CHECK bundle_sha256")
  ensure (row.codec = .raw ∨ row.codec = .zstdPrefix) (.integrity "CHECK codec")
  ensure (0 < row.rawSize ∧ row.rawSize ≤ maxBundleBytes) (.integrity "CHECK raw_size")
  ensure ((row.codec = .raw ∧ row.baseSha256 = none) ∨
      (row.codec = .zstdPrefix ∧ row.baseSha256 ≠ none ∧ row.baseSha256 ≠ some row.bundleSha256))
    (.integrity "CHECK base_sha256")
  ensure (row.codec = .raw ∨ ∃ k ∈ t, row.baseSha256 = some k.bundleSha256 ∧ k.codec = .raw)
    (.integrity "a Git bundle delta base must be a stored raw keyframe")
  return t ++ [row]

/-- Insert once: the codec and the stored size, and the table afterwards. -/
def storeBundle (z : Zstd) (h : Sha256) (t : List BundleRow) (digest : String) (raw : Bytes) :
    Result ((Codec × Nat) × List BundleRow) := do
  ensure (raw ≠ [] ∧ (raw.length : Int) ≤ maxBundleBytes ∧ h.hexdigest raw = digest)
    (.conflict "Git bundle store input does not match its digest")
  match storeEntry t digest with
  | some existing =>
    let held ← loadStoredBundle z h t digest
    ensure (held = raw) (.conflict "Git bundle store already holds different bytes for this digest")
    return ((existing.codec, existing.payload.length), t)
  | none =>
    match ← findDelta z h t raw (keyframesFor t raw) with
    | some (base, payload) =>
      let t ← insertBundle t ⟨digest, .zstdPrefix, some base, raw.length, payload⟩
      return ((.zstdPrefix, payload.length), t)
    | none =>
      let t ← insertBundle t ⟨digest, .raw, none, raw.length, raw⟩
      return ((.raw, raw.length), t)

/-- A `store_bundle` call. -/
structure StoreCall where
  digest : String
  raw : Bytes

/-- The table after a call; a refused one rolls back. -/
def storeStep (z : Zstd) (h : Sha256) (t : List BundleRow) (c : StoreCall) : List BundleRow :=
  match storeBundle z h t c.digest c.raw with
  | .ok (_, t') => t'
  | .error _ => t

/-- The store after the calls, from the empty table. -/
def stored (z : Zstd) (h : Sha256) (calls : List StoreCall) : List BundleRow :=
  run (storeStep z h) [] calls

end AItelier.State
