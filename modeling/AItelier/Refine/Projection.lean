import AItelier.Ledger.Disciplines
import AItelier.State.System

namespace AItelier.State

open AItelier.Lib AItelier.Ledger

def Node.fact (n : Node) : Fact where
  revision := n.revision
  contractHash := n.contractHash
  criteria := n.contract.map Check.id
  status := n.status
  receipt := n.verifiedReceipt

def Attempt.toTry (a : Attempt) : Try where
  node := a.node
  revision := a.nodeRevision
  contractHash := a.contractHash
  pins := a.dependencySnapshot
  status := a.status
  artifact := a.artifactRef
  run := a.runId
  owner := a.ownerDriverId
  fence := a.ownerFence
  abandonKind := a.abandonKind

/-- The ledger a database keeps. -/
def ledger (db : DB) : Ledger where
  facts := fun id => (db.node? id).map Node.fact
  deps := fun id => (depsOf db id.1 id.2).map (fun d => (id.1, d))
  tries := fun i => (db.attempt? i).map Attempt.toTry
  order := db.attempts.map Attempt.attemptId
  latest := fun id => (db.latestAttempt id).map Attempt.attemptId
  evidence := db.evidence
  acceptances := db.acceptances

/-- The database without the bookkeeping that the ledger has no word for. -/
def DB.core (db : DB) : DB :=
  { DB.empty with
    nodes := db.nodes
    dependencies := db.dependencies
    attempts := db.attempts
    evidence := db.evidence
    acceptances := db.acceptances }

theorem ledger_core {db db' : DB} (h : db'.core = db.core) : ledger db' = ledger db := by
  change ledger db'.core = ledger db.core
  rw [h]

theorem core_attempts {db db' : DB} (h : db'.core = db.core) : db'.attempts = db.attempts := by
  have he : db'.core.attempts = db.core.attempts := congrArg DB.attempts h
  exact he

theorem core_attempt? {db db' : DB} (h : db'.core = db.core) (i : String) : db'.attempt? i = db.attempt? i := by
  rw [DB.attempt?, DB.attempt?, core_attempts h]

theorem core_node? {db db' : DB} (h : db'.core = db.core) (k : NodeId) : db'.node? k = db.node? k := by
  have he : db'.core.nodes = db.core.nodes := congrArg DB.nodes h
  change lookup Node.id db'.core.nodes k = lookup Node.id db.core.nodes k
  rw [he]

/-- The ids of the nodes. -/
def DB.ids (db : DB) : List NodeId := db.nodes.map Node.id

section Facts
variable {db : DB} {k : NodeId} {n : Node}

theorem node_id {k : NodeId} (h : db.node? k = some n) : n.id = k := lookup_key h

theorem mem_ids (h : db.node? k = some n) : k ∈ db.ids := by
  rw [← node_id h]
  exact List.mem_map.mpr ⟨n, lookup_mem h, rfl⟩

theorem ledger_fact (h : db.node? k = some n) : (ledger db).facts k = some n.fact := by
  simp [ledger, h]

theorem ledger_fact_none : (ledger db).facts k = none ↔ db.node? k = none := by
  simp [ledger]

theorem node_of_fact {f : Fact} (h : (ledger db).facts k = some f) :
    ∃ n, db.node? k = some n ∧ n.fact = f := by
  simpa [ledger] using h

theorem ledger_snapshot (db : DB) (k : NodeId) : (ledger db).snapshot k = dependencySnapshot db k := by
  simp only [Ledger.snapshot, ledger, dependencySnapshot, List.filterMap_map]
  refine List.filterMap_congr (fun d _ => ?_)
  cases h : db.node? (k.1, d) with
  | none => simp [h]
  | some n =>
    have hk : n.nodeKey = d := congrArg Prod.snd (node_id h)
    simp [h, Fact.row, Node.fact, hk]

theorem setNode_node? (f : Node → Node) (hf : ∀ m, (f m).id = m.id) (j : NodeId) :
    (db.setNode k f).node? j = if j = k then (db.node? j).map f else db.node? j := by
  have h := lookup_modifyWhere (p := fun n => decide (n.id = k)) hf db.nodes j
  simp only [DB.node?, DB.setNode, h]
  cases hj : lookup Node.id db.nodes j with
  | none => simp
  | some n =>
    have hn : n.id = j := lookup_key hj
    by_cases he : j = k <;> simp [hn, he]

theorem ledger_setNode {f : Node → Node} (h : db.node? k = some n) (hf : ∀ m, (f m).id = m.id) :
    ledger (db.setNode k f) = (ledger db).setFact k (f n).fact := by
  have hfacts : (ledger (db.setNode k f)).facts = Function.update (ledger db).facts k (some (f n).fact) := by
    funext j
    simp only [ledger, setNode_node? f hf]
    by_cases he : j = k
    · subst he; simp [h]
    · simp [he]
  have heq : ledger (db.setNode k f) = { ledger db with facts := (ledger (db.setNode k f)).facts } := rfl
  rw [heq, hfacts]
  rfl

theorem ledger_setNode_same {f : Node → Node} (hf : ∀ m, (f m).id = m.id) (hs : ∀ m, (f m).fact = m.fact) :
    ledger (db.setNode k f) = ledger db := by
  have hfacts : (ledger (db.setNode k f)).facts = (ledger db).facts := by
    funext j
    simp only [ledger, setNode_node? f hf]
    by_cases he : j = k
    · subst he; cases h : db.node? j <;> simp [hs]
    · simp [he]
  have heq : ledger (db.setNode k f) = { ledger db with facts := (ledger (db.setNode k f)).facts } := rfl
  rw [heq, hfacts]

end Facts

section Tries
variable {db : DB} {i : String} {a : Attempt}

theorem attempt_id (h : db.attempt? i = some a) : a.attemptId = i := lookup_key h

theorem ledger_try (h : db.attempt? i = some a) : (ledger db).tries i = some a.toTry := by
  simp [ledger, h]

theorem attempt_of_try {t : Try} (h : (ledger db).tries i = some t) :
    ∃ a, db.attempt? i = some a ∧ a.toTry = t := by
  simpa [ledger] using h

theorem setAttempt_attempt? (f : Attempt → Attempt) (hf : ∀ x, (f x).attemptId = x.attemptId) (j : String) :
    (db.setAttempt i f).attempt? j = if j = i then (db.attempt? j).map f else db.attempt? j := by
  have h := lookup_modifyWhere (p := fun a => decide (a.attemptId = i)) hf db.attempts j
  simp only [DB.attempt?, DB.setAttempt, h]
  cases hj : lookup Attempt.attemptId db.attempts j with
  | none => simp
  | some x =>
    have hx : x.attemptId = j := lookup_key hj
    by_cases he : j = i <;> simp [hx, he]

theorem setAttempt_order (f : Attempt → Attempt) (hf : ∀ x, (f x).attemptId = x.attemptId) :
    (db.setAttempt i f).attempts.map Attempt.attemptId = db.attempts.map Attempt.attemptId :=
  map_modifyWhere (fun r _ => hf r) db.attempts

theorem setAttempt_latest (f : Attempt → Attempt) (hf : ∀ x, (f x).attemptId = x.attemptId)
    (hn : ∀ x, (f x).node = x.node) (k : NodeId) :
    ((db.setAttempt i f).latestAttempt k).map Attempt.attemptId = (db.latestAttempt k).map Attempt.attemptId := by
  have h : (db.setAttempt i f).latestAttempt k =
      (db.latestAttempt k).map (fun x => if decide (x.attemptId = i) then f x else x) := by
    refine latest_map (fun x => ?_) db.attempts
    by_cases he : x.attemptId = i <;> simp [he, hn]
  rw [h, Option.map_map]
  congr 1
  funext x
  by_cases he : x.attemptId = i <;> simp [he, hf]

variable {f : Attempt → Attempt}

/-- A rewritten attempt changes the tries only. -/
theorem ledger_setAttempt_eq (hf : ∀ x, (f x).attemptId = x.attemptId)
    (hn : ∀ x, (f x).node = x.node) :
    ledger (db.setAttempt i f) = { ledger db with tries := (ledger (db.setAttempt i f)).tries } := by
  have hlatest : (ledger (db.setAttempt i f)).latest = (ledger db).latest := by
    funext k
    exact setAttempt_latest f hf hn k
  have horder : (ledger (db.setAttempt i f)).order = (ledger db).order := setAttempt_order f hf
  have heq : ledger (db.setAttempt i f) =
      { ledger db with
        tries := (ledger (db.setAttempt i f)).tries
        order := (ledger (db.setAttempt i f)).order
        latest := (ledger (db.setAttempt i f)).latest } := rfl
  rw [hlatest, horder] at heq
  exact heq

theorem ledger_setAttempt (h : db.attempt? i = some a)
    (hf : ∀ x, (f x).attemptId = x.attemptId) (hn : ∀ x, (f x).node = x.node) :
    ledger (db.setAttempt i f) = (ledger db).setTry i (f a).toTry := by
  have htries : (ledger (db.setAttempt i f)).tries = Function.update (ledger db).tries i (some (f a).toTry) := by
    funext j
    simp only [ledger, setAttempt_attempt? f hf]
    by_cases he : j = i
    · subst he; simp [h]
    · simp [he]
  rw [ledger_setAttempt_eq hf hn, htries]
  rfl

theorem ledger_setAttempt_same (hf : ∀ x, (f x).attemptId = x.attemptId)
    (hs : ∀ x, (f x).toTry = x.toTry) : ledger (db.setAttempt i f) = ledger db := by
  have htries : (ledger (db.setAttempt i f)).tries = (ledger db).tries := by
    funext j
    simp only [ledger, setAttempt_attempt? f hf]
    by_cases he : j = i
    · subst he
      cases h : db.attempt? j with
      | none => simp
      | some x => simp [hs]
    · simp [he]
  rw [ledger_setAttempt_eq hf (fun x => congrArg Try.node (hs x)), htries]

end Tries

end AItelier.State
