import AItelier.Lib.Callers
import AItelier.Lib.Entries
import AItelier.Lib.TextFile
import AItelier.State.Text

namespace AItelier.Seeds

open AItelier.Lib
open AItelier.State (strip)

section Files

/-- Where a name leads from the directory it is joined to. -/
inductive Place
  | inside (name : String)
  | nowhere
  | outside
  deriving DecidableEq, Repr

/-- The parts of a path; empty ones and single dots do not count. -/
def parts (name : String) : List String :=
  ((name.toList.splitOn '/').map String.ofList).filter (fun s => decide (s ≠ "" ∧ s ≠ "."))

/-- A directory that is not there cannot be written into: only a name of one part
gives a file. -/
def place (name : String) : Place :=
  if (0 : Nat) ∈ name.toList.map Char.toNat then .nowhere
  else if name.toList.take 1 = ['/'] ∨ ".." ∈ parts name then .outside
  else match parts name with
    | [part] => .inside part
    | _ => .nowhere

/-- `read_text` of a file that `write` was given `text` for: on this platform the
lines are written as they are. -/
def readText (text : String) : String := String.ofList (universal text.toList)

def MARKER : String := ".seed_ready.json"

end Files

section Generations

-- `β` are the review bundles, up to Python's equality.
variable (β : Type)

structure Marker where
  generation : String
  files : List String
  reviewInputBundle : Option β
  deriving DecidableEq, Repr

/-- A seed directory: its files but the marker, and the marker. -/
structure Dir where
  files : Entries String String
  marker : Option (Marker β)
  deriving DecidableEq, Repr

/-- The directory the calls are about, if it is there. -/
structure World where
  seed : Option (Dir β)
  deriving DecidableEq, Repr

/-- The arguments of one call; a dictionary holds a name once. -/
structure Request where
  files : Entries String String
  reviewInputBundle : Option β
  distinct : (files.map Prod.fst).Nodup
  deriving DecidableEq, Repr

variable {β}

def Dir.empty (d : Dir β) : Prop := d.files = [] ∧ d.marker = none

instance [DecidableEq β] (d : Dir β) : Decidable d.empty := inferInstanceAs (Decidable (_ ∧ _))

/-- What the calls take from elsewhere: how a marker is spelled, and which bundles
count as none. -/
structure Host (β : Type) where
  dumps : Marker β → String
  truthy : β → Bool

variable (host : Host β)

/-- The text of the file that `name` leads to, if there is one inside. -/
def Dir.text? (d : Dir β) (name : String) : Option String :=
  match place name with
  | .inside part => if part = MARKER then d.marker.map host.dumps else d.files.get part
  | _ => none

/-- The files of a request as they come to stand in a directory of its own. -/
def write (d : Entries String String) (e : String × String) : Entries String String :=
  match place e.1 with
  | .inside part => d.set part e.2
  | _ => d

def staged (q : Request β) (files : Entries String String) (generation : String) : Dir β :=
  ⟨files.del MARKER, some ⟨generation, (q.files.map Prod.fst).insertionSort (· ≤ ·),
    q.reviewInputBundle.filter host.truthy⟩⟩

end Generations

section Calls

variable (β : Type)

inductive Why
  | different | unpublished | concurrently
  deriving DecidableEq, Repr

/-- How a call ended: a publisher's generation, its refusal (`SeedAlreadyPublished`),
another error, a reader's answer that nothing is published, or what it read. -/
inductive Outcome
  | idle
  | accepted (q : Request β) (generation : String)
  | refused (q : Request β) (why : Why)
  | failed
  | waiting
  | texts (m : Marker β) (read : List (String × String))
  deriving DecidableEq, Repr

/-- What a call does next. A publisher is `late` once its rename has failed. -/
inductive Phase
  | ended (o : Outcome β)
  | asking (q : Request β) (late : Bool)
  | listing (q : Request β) (late : Bool)
  | reading (q : Request β) (late : Bool) (names : List String) (got : Entries String String)
  | comparing (q : Request β) (late : Bool) (got : Entries String String)
  | answering (q : Request β)
  | entering (q : Request β)
  | scanning (q : Request β)
  | staging (q : Request β) (rest : Entries String String) (files : Entries String String)
  | marking (q : Request β) (files : Entries String String)
  | clearing (q : Request β) (d : Dir β)
  | removing (q : Request β) (d : Dir β)
  | landing (q : Request β) (d : Dir β)
  | checking (seedFile : String)
  | naming (seedFile : String)
  | testing (m : Marker β) (names : List String)
  | opening (m : Marker β) (name : String) (names : List String)
  | taking (m : Marker β) (names : List String) (got : List (String × String))
  deriving DecidableEq, Repr

/-- What one effect meets from outside: a fresh id, whether a write fails, and, for
names that lead outside, what is there and what writing there does. -/
structure Outside where
  fresh : String
  fails : Bool
  text : Option String
  elsewhere : World β → World β

/-- A process that starts a call while another stands has died in that one. -/
inductive Action
  | publish (q : Request β)
  | read (seedFile : String)
  | next (w : Outside β)

variable {β} [DecidableEq β] (host : Host β)

/-- What `_published_files` goes on with when it answers `None`. -/
def nonePublished (q : Request β) (late : Bool) : Phase β :=
  if late then .ended (.refused q .concurrently) else .entering q

/-- The text found at a name. -/
def fetch (d : Dir β) (w : Outside β) (name : String) : Option String :=
  match place name with
  | .outside => w.text
  | _ => d.text? host name

def fetched (world : World β) (w : Outside β) (name : String) : Option String :=
  match world.seed with
  | none => none
  | some d => fetch host d w name

/-- The marker of the directory, if both are there. -/
def World.marker (world : World β) : Option (Marker β) := world.seed.bind Dir.marker

/-- The next file into the directory of the call's own. -/
def stage (world : World β) (w : Outside β) (q : Request β) (e : String × String) (rest files : Entries String String) :
    World β × Phase β :=
  let after : Phase β := if w.fails then .ended .failed else .staging q rest (write files e)
  match place e.1 with
  | .inside _ => (world, after)
  | .nowhere => (world, .ended .failed)
  | .outside => (w.elsewhere world, after)

def nextEffect (world : World β) (w : Outside β) : Phase β → World β × Phase β
  | .ended o => (world, .ended o)
  | .asking q late => (world, if world.marker.isSome then .listing q late else nonePublished q late)
  | .listing q late =>
    match world.marker with
    | none => (world, nonePublished q late)
    | some m => (world, .reading q late m.files [])
  | .reading q late [] got => (world, .comparing q late got)
  | .reading q late (name :: names) got =>
    match fetched host world w name with
    | none => (world, nonePublished q late)
    | some text => (world, .reading q late names (got ++ [(name, readText text)]))
  | .comparing q late got =>
    match world.marker with
    | none => (world, .ended .failed)
    | some m =>
      if Entries.Agree got q.files ∧ m.reviewInputBundle = q.reviewInputBundle then (world, .answering q)
      else (world, .ended (.refused q (if late then .concurrently else .different)))
  | .answering q => (world, .ended (.accepted q ((world.marker.map Marker.generation).getD "")))
  | .entering q => (world, if world.seed.isSome then .scanning q else .staging q q.files [])
  | .scanning q =>
    match world.seed with
    | none => (world, .ended .failed)
    | some d => (world, if d.files ≠ [] then .ended (.refused q .unpublished) else .staging q q.files [])
  | .staging q [] files => (world, .marking q files)
  | .staging q (e :: rest) files => stage world w q e rest files
  | .marking q files =>
    (world, if w.fails then .ended .failed else .clearing q (staged host q files w.fresh))
  | .clearing q d => (world, if world.seed.isSome then .removing q d else .landing q d)
  | .removing q d =>
    match world.seed with
    | none => (world, .landing q d)
    | some old => (if old.empty then ⟨none⟩ else world, .landing q d)
  | .landing q d =>
    if ∀ old ∈ world.seed, old.empty then
      (⟨some d⟩, .ended (.accepted q ((d.marker.map Marker.generation).getD "")))
    else (world, .asking q true)
  | .checking seedFile => (world, if world.marker.isSome then .naming seedFile else .ended .waiting)
  | .naming seedFile =>
    match world.marker with
    | none => (world, .ended .waiting)
    | some m =>
      (world, if seedFile ≠ "" ∧ seedFile ∉ m.files then .ended .waiting else .testing m m.files)
  | .testing m [] => (world, .taking m m.files [])
  | .testing m (name :: names) =>
    (world, if (fetched host world w name).isSome then .opening m name names else .ended .waiting)
  | .opening m name names =>
    match fetched host world w name with
    | none => (world, .ended .failed)
    | some text => (world, if strip (readText text) = "" then .ended .waiting else .testing m names)
  | .taking m [] got => (world, .ended (.texts m got))
  | .taking m (name :: names) got =>
    match fetched host world w name with
    | none => (world, .ended .failed)
    | some text => (world, .taking m names (got ++ [(name, readText text)]))

def act (world : World β) (phase : Phase β) : Action β → World β × Phase β
  | .publish q => (world, .asking q false)
  | .read seedFile => (world, .checking seedFile)
  | .next w => nextEffect host world w phase

/-- No process has called anything yet. -/
def start (seed : Option (Dir β)) : Callers (World β) (Phase β) := ⟨⟨seed⟩, fun _ => .ended .idle⟩

def after (seed : Option (Dir β)) (es : List (Nat × Action β)) : Callers (World β) (Phase β) :=
  run (Callers.step (act host)) (start seed) es

end Calls

end AItelier.Seeds
