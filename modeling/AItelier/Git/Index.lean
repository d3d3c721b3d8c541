import Mathlib.Data.Prod.Lex
import Mathlib.Data.List.Lex
import AItelier.Lib.Bytes
import AItelier.Lib.Outcome

namespace AItelier.Git

open AItelier.Lib AItelier.Lib.Bytes

/-- A path is held as the bytes that `os.fsencode` gives for it. -/
structure IndexEntry where
  path : Bytes
  mode : Nat
  sha : List Char
  stage : Nat := 0
  ctimeS : Nat := 0
  ctimeNs : Nat := 0
  mtimeS : Nat := 0
  mtimeNs : Nat := 0
  dev : Nat := 0
  ino : Nat := 0
  uid : Nat := 0
  gid : Nat := 0
  size : Nat := 0
  assumeValid : Bool := false
  skipWorktree : Bool := false
  intentToAdd : Bool := false
  deriving DecidableEq, Repr

def IndexEntry.key (e : IndexEntry) : Bytes ×ₗ Nat := toLex (e.path, e.stage)

structure Index where
  entries : List IndexEntry
  version : Nat
  rawSha256 : List Char

/-- What the codec takes from `hashlib`. -/
structure Hashes where
  sha1 : Bytes → Bytes
  sha256 : Bytes → Bytes
  sha1_length : ∀ bs, (sha1 bs).length = 20

/-- What ends a read or a write: an error of this module with its text, or one of
`struct`, of a search or a conversion, or of an index out of range. -/
inductive Fault
  | runtime (text : String)
  | struct
  | value
  | range
  deriving DecidableEq, Repr

section Struct

/-- `struct.pack` of one number of `k` bytes. -/
def packed (k n : Nat) : Except Fault Bytes := if n < 256 ^ k then .ok (pack k n) else .error .struct

/-- `struct.unpack` of one number of `k` bytes. -/
def unpack (k : Nat) (bs : Bytes) : Except Fault Nat :=
  if bs.length = k then .ok (value bs) else .error .struct

def unpackWords (k : Nat) (bs : Bytes) : Except Fault (List Nat) :=
  if bs.length = 4 * k then .ok (words k bs) else .error .struct

/-- `data.index(b"\0", pos)`. -/
def indexNul (data : Bytes) (pos : Nat) : Except Fault Nat :=
  if nul (data.drop pos) < (data.drop pos).length then .ok (pos + nul (data.drop pos)) else .error .value

def dirc : Bytes := [0x44, 0x49, 0x52, 0x43]

def linkSig : Bytes := [0x6c, 0x69, 0x6e, 0x6b]

def sdirSig : Bytes := [0x73, 0x64, 0x69, 0x72]

/-- `(n + 8) & ~7`. -/
def padded (n : Nat) : Nat := (n + 8) / 8 * 8

end Struct

section Parse

/-- The extended flags of an entry, and the cursor after them. -/
def parseExt (data : Bytes) (version flags pos : Nat) : Except Fault (Nat × Nat) :=
  if flags.testBit 14 then do
    ensure (¬ version < 3) (.runtime "extended index flags in a version-2 index")
    let ext ← unpack 2 (slice data pos (pos + 2))
    .ok (ext, pos + 2)
  else .ok (0, pos)

/-- `prev[:len(prev) - strip]`; below zero the end is counted from the back again. -/
def stripped (prev : Bytes) (strip : Nat) : Bytes :=
  if strip ≤ prev.length then prev.take (prev.length - strip) else prev.take (2 * prev.length - strip)

/-- The name of an entry that began at `start`, and the cursor at the next one. -/
def parseName (data : Bytes) (version start pos : Nat) (prev : Bytes) : Except Fault (Bytes × Nat) :=
  if version = 4 then do
    let (strip, pos) ← orElse (varint data pos) .range
    let nul ← indexNul data pos
    .ok (stripped prev strip ++ slice data pos nul, nul + 1)
  else do
    let nul ← indexNul data pos
    let name := slice data pos nul
    .ok (name, start + padded (pos - start + name.length))

def entryOf (name : Bytes) (sha : List Char) (flags ext : Nat) : List Nat → Except Fault IndexEntry
  | [cs, cn, ms, mn, dev, ino, mode, uid, gid, size] => do
    ensure (mode &&& 0xF000 ≠ 0x4000) (.runtime "sparse-index directory entries are unsupported")
    .ok
      { path := name, mode := mode, sha := sha, stage := flags >>> 12 &&& 3, ctimeS := cs, ctimeNs := cn,
        mtimeS := ms, mtimeNs := mn, dev := dev, ino := ino, uid := uid, gid := gid, size := size,
        assumeValid := flags.testBit 15, skipWorktree := ext.testBit 14, intentToAdd := ext.testBit 13 }
  | _ => .error .struct

/-- One entry, and the cursor at the next one. -/
def parseEntry (data : Bytes) (version pos : Nat) (prev : Bytes) : Except Fault (IndexEntry × Nat) := do
  let fields ← unpackWords 10 (slice data pos (pos + 40))
  let sha := hex (slice data (pos + 40) (pos + 60))
  let flags ← unpack 2 (slice data (pos + 60) (pos + 62))
  let (ext, after) ← parseExt data version flags (pos + 62)
  let (name, next) ← parseName data version pos after prev
  let entry ← entryOf name sha flags ext fields
  .ok (entry, next)

def parseEntries (data : Bytes) (version : Nat) : Nat → Nat → Bytes → Except Fault (List IndexEntry × Nat)
  | 0, pos, _ => .ok ([], pos)
  | count + 1, pos, prev => do
    let (entry, next) ← parseEntry data version pos prev
    let (entries, stop) ← parseEntries data version count next entry.path
    .ok (entry :: entries, stop)

/-- The extensions up to `stop`, which are read over. -/
def skipExtensions (data : Bytes) (stop pos : Nat) : Except Fault Unit :=
  if pos + 8 ≤ stop then do
    let sig := slice data pos (pos + 4)
    let size ← unpack 4 (slice data (pos + 4) (pos + 8))
    ensure (sig ≠ linkSig ∧ sig ≠ sdirSig)
      (.runtime "split or sparse indexes are unsupported by the closed profile")
    skipExtensions data stop (pos + (8 + size))
  else .ok ()
termination_by stop - pos

def parseIndex (host : Hashes) (data : Bytes) : Except Fault Index := do
  ensure (¬ (data.length < 32 ∨ data.take 4 ≠ dirc)) (.runtime "index is not a Git DIRC index")
  let stop := data.length - 20
  ensure (host.sha1 (data.take stop) = data.drop stop)
    (.runtime "index checksum mismatch (sha1 indexes only)")
  let version ← unpack 4 (slice data 4 8)
  let count ← unpack 4 (slice data 8 12)
  ensure (version = 2 ∨ version = 3 ∨ version = 4)
    (.runtime ("index version " ++ toString version ++ " is unsupported"))
  let (entries, pos) ← parseEntries data version count 12 []
  skipExtensions data stop pos
  .ok ⟨entries, version, hex (host.sha256 data)⟩

end Parse

section Serialize

def extOf (e : IndexEntry) : Nat := (if e.skipWorktree then 0x4000 else 0) ||| (if e.intentToAdd then 0x2000 else 0)

def flagsOf (e : IndexEntry) (extended : Bool) : Nat :=
  min e.path.length 0xFFF ||| e.stage <<< 12 ||| (if e.assumeValid then 0x8000 else 0) |||
    (if extended then 0x4000 else 0)

def statFields (e : IndexEntry) : List Nat :=
  [e.ctimeS, e.ctimeNs, e.mtimeS, e.mtimeNs, e.dev, e.ino, e.mode, e.uid, e.gid, e.size]

def extBytes (ext : Nat) : Except Fault Bytes := if ext ≠ 0 then packed 2 ext else .ok []

def serializeEntry (e : IndexEntry) : Except Fault Bytes := do
  let sha ← orElse (fromHex e.sha) .value
  let flags ← packed 2 (flagsOf e (decide (extOf e ≠ 0)))
  let ext ← extBytes (extOf e)
  let block := ((statFields e).map (fun v => pack 4 (v % 2 ^ 32))).flatten ++ sha ++ flags ++ ext ++ e.path
  .ok (block ++ List.replicate (padded block.length - block.length) 0)

def serializeIndex (host : Hashes) (entries : List IndexEntry) : Except Fault Bytes := do
  let entries := entries.mergeSort (fun a b => decide (a.key ≤ b.key))
  let version := if entries.any (fun e => e.skipWorktree || e.intentToAdd) then 3 else 2
  let count ← packed 4 entries.length
  let blocks ← entries.mapM serializeEntry
  let body := dirc ++ pack 4 version ++ count ++ blocks.flatten
  .ok (body ++ host.sha1 body)

end Serialize

/-- An entry that an index can hold, its sha spelled in either case. -/
structure IndexEntry.Fits (e : IndexEntry) : Prop where
  path : e.path ≠ []
  plain : 0 ∉ e.path
  digits : ∀ c ∈ e.sha, (hexValue c).isSome
  sha : e.sha.length = 40
  stage : e.stage ≤ 3
  fields : ∀ v ∈ statFields e, v < 2 ^ 32
  mode : e.mode &&& 0xF000 ≠ 0x4000

/-- An entry as Git spells it. -/
structure IndexEntry.Formed (e : IndexEntry) : Prop extends e.Fits where
  lower : ∀ c ∈ e.sha, c ∈ hexDigits

section Files

/-- An entry as a file holds it: whether its extended flags are there, and how many bytes of
the name before it a file of version 4 does not repeat. -/
structure Stored where
  entry : IndexEntry
  extended : Bool
  shared : Nat

/-- An extension that a reader may pass over: its signature, and what it holds. -/
structure Extension where
  sig : Bytes
  body : Bytes
  sig_length : sig.length = 4
  body_length : body.length < 2 ^ 32
  optional : sig ≠ linkSig ∧ sig ≠ sdirSig

variable (version : Nat) (prev : Bytes)

def Stored.shaBytes (s : Stored) : Bytes := (fromHex s.entry.sha).getD []

/-- What stands before the name. -/
def Stored.head (s : Stored) : Bytes :=
  ((statFields s.entry).map (pack 4)).flatten ++
    (s.shaBytes ++ (pack 2 (flagsOf s.entry s.extended) ++ if s.extended then pack 2 (extOf s.entry) else []))

/-- Version 4 says how much of the name before to cut off and goes on from there; the
others write the whole name, and zeros after it up to a multiple of eight. -/
def Stored.name (s : Stored) : Bytes :=
  if version = 4 then varintBytes (prev.length - s.shared) ++ (s.entry.path.drop s.shared ++ [0])
  else
    s.entry.path ++ List.replicate (padded (s.head.length + s.entry.path.length) -
      (s.head.length + s.entry.path.length)) 0

def Stored.block (s : Stored) : Bytes := s.head ++ s.name version prev

def blocksFrom : Bytes → List Stored → Bytes
  | _, [] => []
  | prev, s :: rest => s.block version prev ++ blocksFrom s.entry.path rest

structure Stored.Formed (s : Stored) : Prop where
  entry : s.entry.Formed
  flagged : s.entry.skipWorktree = true ∨ s.entry.intentToAdd = true → s.extended = true
  extended : s.extended = true → 3 ≤ version
  shared : version = 4 → s.shared ≤ prev.length ∧ prev.take s.shared = s.entry.path.take s.shared

def FormedFrom : Bytes → List Stored → Prop
  | _, [] => True
  | prev, s :: rest => s.Formed version prev ∧ FormedFrom s.entry.path rest

structure IndexFile where
  version : Nat
  stored : List Stored
  extensions : List Extension
  supported : version = 2 ∨ version = 3 ∨ version = 4
  formed : FormedFrom version [] stored
  sorted : (stored.map Stored.entry).Pairwise (fun a b => a.key < b.key)
  count : stored.length < 2 ^ 32

def Extension.bytes (x : Extension) : Bytes := x.sig ++ (pack 4 x.body.length ++ x.body)

def IndexFile.entries (f : IndexFile) : List IndexEntry := f.stored.map Stored.entry

/-- The file without its checksum. -/
def IndexFile.body (f : IndexFile) : Bytes :=
  dirc ++ (pack 4 f.version ++ (pack 4 f.stored.length ++
    (blocksFrom f.version [] f.stored ++ (f.extensions.map Extension.bytes).flatten)))

def IndexFile.bytes (host : Hashes) (f : IndexFile) : Bytes := f.body ++ host.sha1 f.body

end Files

end AItelier.Git
