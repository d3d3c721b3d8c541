import Mathlib.Data.List.Sort
import Mathlib.Data.String.Basic
import AItelier.Lib.FileTree

namespace AItelier.Registration

open AItelier.Lib AItelier.Lib.FileTree

section Files

/-- What `_capture` keeps of a path: what stands there, and what is inside it. -/
structure Saved where
  top : Node
  inside : List (Path × Node)

/-- Whatever is neither a link nor a file is kept as a directory. -/
def keptAs : Node → Node
  | .special mode => .dir mode
  | n => n

/-- Every directory on the way down to `q` can be listed, so that `rglob` comes to `q`. -/
def reached (proc : Process) (fs : Files) (p q : Path) : Bool :=
  (q.inits.filter (fun r => decide (p <+: r ∧ r ≠ q))).all (fun r =>
    match fs.get r with
    | some (.dir mode) => proc.lists mode
    | _ => false)

/-- `len(item[0].parts), str(item[0])`. -/
def restoreOrder (a b : Path × Node) : Bool :=
  decide (a.1.length < b.1.length) ||
    (decide (a.1.length = b.1.length) && decide (String.intercalate "/" a.1 ≤ String.intercalate "/" b.1))

def captureInside (proc : Process) (fs : Files) (p : Path) : List (Path × Node) :=
  (below fs p).filterMap (fun q =>
    if reached proc fs p q then (fs.get q).map (fun n => (q.drop p.length, keptAs n)) else none)

/-- `_capture`. -/
def capture (proc : Process) (fs : Files) (p : Path) : Option Saved :=
  match fs.get p with
  | none => none
  | some (.link text) => some ⟨.link text, []⟩
  | some (.file data mode) => some ⟨.file data mode, []⟩
  | some n => some ⟨keptAs n, captureInside proc fs p⟩

/-- `_remove`. -/
def remove (proc : Process) (p : Path) (fs : Files) : Files × Bool :=
  match fs.get p with
  | none => (fs, true)
  | some (.link _) => unlink proc p fs
  | some (.file _ _) => unlink proc p fs
  | some _ => rmtree proc p fs

/-- Make the entry at `p`, and the directories above it where they are missing. -/
def place (proc : Process) (p : Path) (n : Node) (fs : Files) : Files × Bool :=
  let made := mkParents proc p fs
  if made.2 then put proc p n made.1 else made

def placeEach (proc : Process) (p : Path) : List (Path × Node) → Files → Files × Bool
  | [], fs => (fs, true)
  | e :: rest, fs =>
    let placed := place proc (p ++ e.1) e.2 fs
    if placed.2 then placeEach proc p rest placed.1 else placed

/-- `_restore`. -/
def restore (proc : Process) (p : Path) (state : Option Saved) (fs : Files) : Files × Bool :=
  let removed := remove proc p fs
  if removed.2 then
    match state with
    | none => removed
    | some saved =>
      let placed := place proc p saved.top removed.1
      if placed.2 then placeEach proc p (saved.inside.mergeSort restoreOrder) placed.1 else placed
  else removed

def restoreEach (proc : Process) : List (Path × Option Saved) → Files → Files × Bool
  | [], fs => (fs, true)
  | e :: rest, fs =>
    let restored := restore proc e.1 e.2 fs
    let others := restoreEach proc rest restored.1
    (others.1, restored.2 && others.2)

/-- The paths that lie in no other one. -/
def outermost (paths : List Path) : List Path :=
  (paths.filter (fun p => !paths.any (fun q => decide (q ≠ p ∧ q <+: p)))).eraseDups

end Files

section Rows

inductive Table
  | skillflowGraphs | skillflowGraphVersions
  deriving DecidableEq, Repr

def tables : List Table := [.skillflowGraphs, .skillflowGraphVersions]

/-- What the engine's schema lets a table hold under one name. Both tables are keyed by the name
first, so that no constraint is about rows of two names, and rows can be put in one after another. -/
structure Schema (ρ : Type*) where
  admits : Table → List ρ → Bool
  admits_prefix : ∀ t l l', l <+: l' → admits t l' = true → admits t l = true

variable {ρ : Type*}

structure Db (schema : Schema ρ) where
  rows : Table → String → List ρ
  admitted : ∀ t name, schema.admits t (rows t name) = true

variable {schema : Schema ρ}

def Db.set (db : Db schema) (t : Table) (name : String) (l : List ρ) (h : schema.admits t l = true) : Db schema where
  rows := fun t' name' => if t' = t ∧ name' = name then l else db.rows t' name'
  admitted := by
    intro t' name'
    split
    · next he => rw [he.1]; exact h
    · exact db.admitted t' name'

/-- `DELETE FROM t WHERE name=?`. -/
def Db.delete (db : Db schema) (t : Table) (name : String) : Db schema :=
  db.set t name [] (schema.admits_prefix t [] _ List.nil_prefix (db.admitted t name))

/-- `INSERT INTO t`, refused where the schema does not let the row in. -/
def Db.insert (db : Db schema) (t : Table) (name : String) (row : ρ) : Option (Db schema) :=
  if h : schema.admits t (db.rows t name ++ [row]) = true then some (db.set t name _ h) else none

def Db.insertEach (t : Table) (name : String) : List ρ → Db schema → Option (Db schema)
  | [], db => some db
  | row :: rows, db => (db.insert t name row).bind (insertEach t name rows)

/-- A connection: what is committed, and what its open transaction has made of it. -/
structure Connection (schema : Schema ρ) where
  disk : Db schema
  pending : Option (Db schema)

def Connection.view (c : Connection schema) : Db schema := c.pending.getD c.disk

def restoreRows (saved : Table → String → List ρ) : List (String × Table) → Db schema → Option (Db schema)
  | [], db => some db
  | (name, t) :: rest, db => ((db.delete t name).insertEach t name (saved t name)).bind (restoreRows saved rest)

/-- From `BEGIN IMMEDIATE` to the commit, or to the rollback where a statement raises.
There is no second transaction inside an open one. -/
def rollbackRows (saved : Table → String → List ρ) (names : List String) (c : Connection schema) :
    Connection schema × Bool :=
  match c.pending with
  | some _ => ({ c with pending := none }, false)
  | none =>
    match restoreRows saved (names.flatMap (fun name => tables.map (fun t => (name, t)))) c.disk with
    | some db => (⟨db, none⟩, true)
    | none => (c, false)

end Rows

section Transaction

structure AgentConfig (α : Type*) where
  name : α
  model : α
  tools : α
  config : α
  toolSchemas : α
  unknownTools : α

/-- All that a transaction is about. A registry maps a name to an object, by reference; the objects
that are agent configurations stand apart from the others. -/
structure World (α : Type*) {ρ : Type*} (schema : Schema ρ) where
  agents : Entries String Nat
  agentAt : Nat → AgentConfig α
  capabilities : Entries String Nat
  graphs : Entries String Nat
  resolvers : Entries String Nat
  /-- the registry's dictionary, where it has one -/
  manifests : Option (Entries String Nat)
  valueAt : Nat → α
  conn : Connection schema
  files : Files

/-- What `__enter__` keeps: of each agent the object and a deep copy of what it held, of the
other registries the references alone. -/
structure Snapshot (α ρ : Type*) where
  agents : Entries String (Nat × AgentConfig α)
  capabilities : Entries String Nat
  graphs : String → Option Nat
  resolvers : String → Option Nat
  manifests : Option (String → Option Nat)
  rows : Table → String → List ρ
  files : List (Path × Option Saved)

structure Transaction (α ρ : Type*) where
  names : List String
  paths : List Path
  saved : Snapshot α ρ
  committed : Bool
  rolledBack : Bool

variable {α ρ : Type*} {schema : Schema ρ}

/-- `__init__` and `__enter__`. -/
def enter (proc : Process) (names : List String) (paths : List Path) (w : World α schema) :
    Transaction α ρ where
  names := names.eraseDups
  paths := outermost paths
  saved :=
    { agents := w.agents.map (fun e => (e.1, e.2, w.agentAt e.2))
      capabilities := w.capabilities
      graphs := w.graphs.get
      resolvers := w.resolvers.get
      manifests := w.manifests.map Entries.get
      rows := w.conn.view.rows
      files := (outermost paths).map (fun p => (p, capture proc w.files p)) }
  committed := false
  rolledBack := false

/-- Every object gets back what it held. -/
def restoreAgents (saved : Entries String (Nat × AgentConfig α)) (agentAt : Nat → AgentConfig α) :
    Nat → AgentConfig α :=
  saved.foldl (fun at' e => Function.update at' e.2.1 e.2.2) agentAt

/-- `rollback`: the world it leaves, and whether it did all of it. -/
def rollback (proc : Process) (t : Transaction α ρ) (w : World α schema) : World α schema × Bool :=
  if t.rolledBack then (w, true)
  else
    let rows := rollbackRows t.saved.rows t.names w.conn
    let files := restoreEach proc t.saved.files w.files
    ({ agents := t.saved.agents.map (fun e => (e.1, e.2.1))
       agentAt := restoreAgents t.saved.agents w.agentAt
       capabilities := t.saved.capabilities
       graphs := w.graphs.restore t.saved.graphs t.names
       resolvers := w.resolvers.restore t.saved.resolvers t.names
       manifests :=
         match w.manifests, t.saved.manifests with
         | some m, some held => some (m.restore held t.names)
         | _, _ => w.manifests
       valueAt := w.valueAt
       conn := rows.1
       files := files.1 }, rows.2 && files.2)

/-- `__exit__`: the world that the end of the body leaves, after an exception or without one. -/
def exit (proc : Process) (raised : Bool) (t : Transaction α ρ) (w : World α schema) : World α schema × Bool :=
  if raised || !t.committed then rollback proc t w else (w, true)

end Transaction

end AItelier.Registration
