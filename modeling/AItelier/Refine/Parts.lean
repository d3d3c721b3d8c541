import AItelier.Refine.Claims

namespace AItelier.State

open AItelier.Lib

variable {db db' db'' : DB} {host : Host} {caller : Caller} {p k i : String}

/-- What the rest of the store reads of an attempt: which execution it is and
where it stands. -/
structure Standing where
  attemptId : String
  projectId : String
  nodeKey : String
  executionKind : ExecutionKind
  harness : Option String
  externalId : Option String
  status : AttemptStatus
  abandonKind : Option AbandonKind
  runId : Option String
  requestKey : String
  requestHash : String

def Attempt.standing (a : Attempt) : Standing :=
  ⟨a.attemptId, a.projectId, a.nodeKey, a.executionKind, a.harness, a.externalId, a.status, a.abandonKind, a.runId,
    a.requestKey, a.requestHash⟩

/-- The labels and edges of the graphs. -/
def DB.shape (db : DB) : List (NodeId × Option Facet) × List Dependency :=
  (db.nodes.map (fun n => (n.id, n.facet)), db.dependencies)

/-- What the revision rows record of a node. -/
structure Draft where
  id : NodeId
  revision : Nat
  goal : String
  contract : List Check
  contractHash : String
  deriving DecidableEq, Repr

def Node.draft (n : Node) : Draft := ⟨n.id, n.revision, n.goal, n.contract, n.contractHash⟩

/-- The nodes' contracts with their recorded revisions. -/
def DB.history (db : DB) : List Draft × List Revision := (db.nodes.map Node.draft, db.revisions)

/-- The rows of the three policy settings. -/
def DB.settings (db : DB) : List Policy × List Enforcement := (db.policies, db.enforcement)

/-- The design facts: revisions, baselines and what nodes were bound to. -/
def DB.design (db : DB) : List DesignRevision × List DesignBaseline × List DesignBinding :=
  (db.designRevisions, db.designBaselines, db.designBindings)

inductive Part
  | projects | shape | history | standings | owners | handoffs | observations | settings | design
  deriving DecidableEq, Repr

/-- The parts of the store that are not in `ps`. -/
structure Parts where
  projects : Option (List Project)
  shape : Option (List (NodeId × Option Facet) × List Dependency)
  history : Option (List Draft × List Revision)
  standings : Option (List Standing)
  owners : Option (List ExternalOwner)
  handoffs : Option (List Handoff)
  observations : Option (List Observation)
  settings : Option (List Policy × List Enforcement)
  design : Option (List DesignRevision × List DesignBaseline × List DesignBinding)

def DB.parts (ps : List Part) (db : DB) : Parts where
  projects := if .projects ∈ ps then none else some db.projects
  shape := if .shape ∈ ps then none else some db.shape
  history := if .history ∈ ps then none else some db.history
  standings := if .standings ∈ ps then none else some (db.attempts.map Attempt.standing)
  owners := if .owners ∈ ps then none else some db.owners
  handoffs := if .handoffs ∈ ps then none else some db.handoffs
  observations := if .observations ∈ ps then none else some db.observations
  settings := if .settings ∈ ps then none else some db.settings
  design := if .design ∈ ps then none else some db.design

/-- A transaction that adds to the log, and writes no part outside `ps`. -/
structure Leaves (ps : List Part) (db db' : DB) : Prop where
  log : db.events <+: db'.events
  parts : db'.parts ps = db.parts ps

namespace Leaves

variable {ps qs : List Part}

theorem refl (ps : List Part) (db : DB) : Leaves ps db db := ⟨List.prefix_refl _, rfl⟩

theorem trans (h : Leaves ps db db') (h' : Leaves ps db' db'') : Leaves ps db db'' :=
  ⟨h.log.trans h'.log, h'.parts.trans h.parts⟩

theorem mono (h : Leaves ps db db') (hsub : ps ⊆ qs) : Leaves qs db db' := by
  refine ⟨h.log, ?_⟩
  have hp := h.parts
  simp only [DB.parts, Parts.mk.injEq] at hp ⊢
  have weaken : ∀ (x : Part) {β : Type} (a b : β), (if x ∈ ps then none else some a) =
      (if x ∈ ps then none else some b) →
      (if x ∈ qs then none else some a) = (if x ∈ qs then none else some b) := by
    intro x β a b he
    by_cases hx : x ∈ qs
    · simp [hx]
    · have hx' : x ∉ ps := fun hin => hx (hsub hin)
      simpa [hx, hx'] using he
  exact ⟨weaken _ _ _ hp.1, weaken _ _ _ hp.2.1, weaken _ _ _ hp.2.2.1, weaken _ _ _ hp.2.2.2.1,
    weaken _ _ _ hp.2.2.2.2.1, weaken _ _ _ hp.2.2.2.2.2.1, weaken _ _ _ hp.2.2.2.2.2.2.1,
    weaken _ _ _ hp.2.2.2.2.2.2.2.1, weaken _ _ _ hp.2.2.2.2.2.2.2.2⟩

theorem event {db₁ : DB} {q : String} {k : Option String} {type : String} {payload : List (String × Json)}
    (h : Leaves ps db db₁) : Leaves ps db (db₁.event q k type payload) :=
  ⟨h.log.trans (List.prefix_append _ _), h.parts⟩

theorem logged {e : List Event} (hlog : db'.events = db.events ++ e) (h : db'.parts ps = db.parts ps) :
    Leaves ps db db' :=
  ⟨⟨e, hlog.symm⟩, h⟩

theorem projects (h : Leaves ps db db') (hp : .projects ∉ ps) : db'.projects = db.projects := by
  have he := congrArg Parts.projects h.parts
  simpa [DB.parts, hp] using he

theorem shape (h : Leaves ps db db') (hp : .shape ∉ ps) : db'.shape = db.shape := by
  have he := congrArg Parts.shape h.parts
  simpa [DB.parts, hp] using he

theorem history (h : Leaves ps db db') (hp : .history ∉ ps) : db'.history = db.history := by
  have he := congrArg Parts.history h.parts
  simpa [DB.parts, hp] using he

theorem standings (h : Leaves ps db db') (hp : .standings ∉ ps) :
    db'.attempts.map Attempt.standing = db.attempts.map Attempt.standing := by
  have he := congrArg Parts.standings h.parts
  simpa [DB.parts, hp] using he

theorem owners (h : Leaves ps db db') (hp : .owners ∉ ps) : db'.owners = db.owners := by
  have he := congrArg Parts.owners h.parts
  simpa [DB.parts, hp] using he

theorem handoffs (h : Leaves ps db db') (hp : .handoffs ∉ ps) : db'.handoffs = db.handoffs := by
  have he := congrArg Parts.handoffs h.parts
  simpa [DB.parts, hp] using he

theorem observations (h : Leaves ps db db') (hp : .observations ∉ ps) : db'.observations = db.observations := by
  have he := congrArg Parts.observations h.parts
  simpa [DB.parts, hp] using he

theorem settings (h : Leaves ps db db') (hp : .settings ∉ ps) : db'.settings = db.settings := by
  have he := congrArg Parts.settings h.parts
  simpa [DB.parts, hp] using he

theorem design (h : Leaves ps db db') (hp : .design ∉ ps) : db'.design = db.design := by
  have he := congrArg Parts.design h.parts
  simpa [DB.parts, hp] using he

theorem foldl {α : Type} {f : DB → α → DB} (hf : ∀ db a, Leaves ps db (f db a)) (db : DB) (l : List α) :
    Leaves ps db (l.foldl f db) := by
  induction l generalizing db with
  | nil => exact refl ps db
  | cons a l ih => exact (hf db a).trans (ih (f db a))

end Leaves

section Writes

theorem setNode_parts (ps : List Part) {f : Node → Node} (db : DB) (id : NodeId)
    (hf : ∀ n, (f n).facet = n.facet) (hd : ∀ n, (f n).draft = n.draft) :
    (db.setNode id f).parts ps = db.parts ps := by
  have hs : (db.setNode id f).shape = db.shape := by
    have hnodes : (modifyWhere (fun n => decide (n.id = id)) f db.nodes).map (fun n => (n.id, n.facet)) =
        db.nodes.map (fun n => (n.id, n.facet)) := by
      refine map_modifyWhere (fun n _ => ?_) db.nodes
      have hid : (f n).id = n.id := congrArg Draft.id (hd n)
      rw [hid, hf]
    exact Prod.ext hnodes rfl
  have hh : (db.setNode id f).history = db.history := by
    refine Prod.ext ?_ rfl
    exact map_modifyWhere (fun n _ => hd n) db.nodes
  simp only [DB.parts, hs, hh]
  rfl

theorem invalidate_parts (ps : List Part) (db : DB) (p k : String) :
    (invalidate db p k).parts ps = db.parts ps := by
  have hs : (invalidate db p k).shape = db.shape := by
    refine Prod.ext ?_ rfl
    exact map_modifyWhere (fun _ _ => by rfl) db.nodes
  have hh : (invalidate db p k).history = db.history := by
    refine Prod.ext ?_ rfl
    exact map_modifyWhere (fun _ _ => by rfl) db.nodes
  simp only [DB.parts, hs, hh]
  rfl

theorem setAttempt_parts (ps : List Part) {f : Attempt → Attempt} (db : DB) (i : String)
    (hf : ∀ a ∈ db.attempts, a.attemptId = i → (f a).standing = a.standing) :
    (db.setAttempt i f).parts ps = db.parts ps := by
  have hs : (db.setAttempt i f).attempts.map Attempt.standing = db.attempts.map Attempt.standing := by
    simp only [DB.setAttempt, modifyWhere, List.map_map]
    refine List.map_congr_left (fun a ha => ?_)
    by_cases h : a.attemptId = i
    · simpa [h] using hf a ha h
    · simp [h]
  simp only [DB.parts, hs]
  rfl

/-- An update of an attempt writes the standings only. -/
theorem setAttempt_leaves (f : Attempt → Attempt) (db : DB) (i : String) :
    Leaves [.standings] db (db.setAttempt i f) :=
  ⟨List.prefix_refl _, rfl⟩

theorem setClaim_leaves (ps : List Part) (f : Claim → Claim) (db : DB) (i : String) :
    Leaves ps db (db.setClaim i f) :=
  ⟨List.prefix_refl _, rfl⟩

theorem retireClaim_leaves (ps : List Part) (db : DB) (actor : String) (claim : Claim) (status : ClaimStatus)
    (reason : String) : Leaves ps db (retireClaim db actor claim status reason) :=
  ⟨List.prefix_refl _, rfl⟩

theorem markBack_leaves (ps : List Part) (db : DB) (driverId : Option String) (now : Stamp) :
    Leaves ps db (markBack db driverId now) := by
  cases driverId with
  | none => exact Leaves.refl ps db
  | some d =>
    unfold markBack
    dsimp only
    split_ifs <;> exact ⟨List.prefix_refl _, rfl⟩

theorem bindClaim_leaves (ps : List Part) (db : DB) (claim : Option Claim) (attemptId : String) :
    Leaves ps db (bindClaim db claim attemptId) := by
  cases claim with
  | none => exact Leaves.refl ps db
  | some c => exact setClaim_leaves ps _ db c.claimId

end Writes

section Claims
variable {ps : List Part}

theorem sweepOne_leaves (actor p : String) (db : DB) (lapsed : Lapsed) : Leaves ps db (sweepOne actor p db lapsed) := by
  cases lapsed with
  | claim row phase =>
    simp only [sweepOne]
    split_ifs
    · exact (retireClaim_leaves ps db actor row .expired _).event
    · exact (Leaves.refl ps db).event
  | attempt row phase => exact (Leaves.refl ps db).event

theorem sweep_leaves (db : DB) (actor p : String) (now : Stamp) (nodeKey : Option String) :
    Leaves ps db (sweep db actor p now nodeKey) :=
  Leaves.foldl (sweepOne_leaves actor p) db _

theorem acquire_leaves {actor reason : String} {claim : Claim} {extra : List (String × Json)}
    (h : acquire db actor claim reason extra = .ok db') : Leaves ps db db' := by
  obtain ⟨_, rfl⟩ := acquire_ok h
  exact Leaves.logged rfl rfl

variable {now : Stamp} {c : Claim} {ids : Nat → String} {actor reason newHolder : String} {attempt : Attempt}

theorem claimNode_leaves {r : ClaimRequest} {claimId : String}
    (h : claimNode host db caller r claimId now = .ok (c, db')) : Leaves ps db db' := by
  simp only [claimNode, bind_ok] at h
  obtain ⟨driver, _, _, _, _, _, _, _, _, _, node, _, h⟩ := h
  split at h
  · simp only [bind_ok, pure_ok, Prod.mk.injEq] at h
    obtain ⟨_, _, _, rfl⟩ := h
    exact markBack_leaves ..
  · simp only [bind_ok, pure_ok, rescue_ok, Prod.mk.injEq] at h
    obtain ⟨_, _, _, _, _, _, _, hacq, _, rfl⟩ := h
    exact ((markBack_leaves ..).trans (sweep_leaves ..)).trans (acquire_leaves hacq)

theorem releaseClaim_leaves {claimId reason : String} {fence : Int}
    (h : releaseClaim db caller p claimId fence reason = .ok (c, db')) : Leaves ps db db' := by
  simp only [releaseClaim, bind_ok, pure_ok, ite_ok, Prod.mk.injEq] at h
  obtain ⟨_, _, _, _, _, _, claim, _, _, _, _, _, ⟨_, _, rfl⟩ | ⟨_, _, _, _, _, _, rfl⟩⟩ := h
  · exact Leaves.refl ps db
  · exact (retireClaim_leaves ps db caller.actor claim .released _).event

theorem releaseBoundClaims_leaves (db : DB) (attempt : Attempt) (actor : String) (status : AttemptStatus) :
    Leaves ps db (releaseBoundClaims db attempt actor status) := by
  unfold releaseBoundClaims
  exact Leaves.foldl (fun db claim => (retireClaim_leaves ps db actor claim .released _).event) db _

theorem stopBoundClaims_leaves (db : DB) (actor reason : String) (attempt : Attempt) (newHolder : Option String) :
    Leaves ps db (stopBoundClaims db actor reason attempt newHolder) := by
  unfold stopBoundClaims
  exact Leaves.foldl (fun db claim => (retireClaim_leaves ps db actor claim _ reason).event) db _

theorem newClaimFor_leaves {actor reason workspace driver uid : String} {t : Transfer}
    {purpose : Purpose} {subagent : Option String}
    (h : newClaimFor host db actor t driver now reason workspace purpose subagent uid = .ok (c, db')) :
    Leaves ps db db' := by
  simp only [newClaimFor, bind_ok, pure_ok, Prod.mk.injEq] at h
  obtain ⟨_, _, db₁, hacq, _, rfl⟩ := h
  exact acquire_leaves hacq

theorem bindHeldClaim_leaves (db : DB) (actor reason : String) (attempt : Attempt) (held : Claim) :
    Leaves ps db (bindHeldClaim db actor attempt held reason).2 :=
  Leaves.logged rfl rfl

theorem moveClaim_leaves
    {m m' : Moving} {claim : Claim} (h : moveClaim host actor reason attempt newHolder now ids m claim = .ok m') :
    Leaves ps m.db m'.db := by
  unfold moveClaim at h
  split at h
  · rw [pure_ok] at h
    subst h
    exact bindHeldClaim_leaves ..
  · simp only [bind_ok, pure_ok] at h
    obtain ⟨⟨moved, db₁⟩, hnew, rfl⟩ := h
    exact newClaimFor_leaves hnew

theorem moveDefault_leaves
    {m m' : Moving} (h : moveDefault host actor reason attempt newHolder now ids m = .ok m') :
    Leaves ps m.db m'.db := by
  unfold moveDefault at h
  split at h
  · rw [pure_ok] at h
    subst h
    exact Leaves.refl ..
  · rw [pure_ok] at h
    subst h
    exact bindHeldClaim_leaves ..
  · simp only [bind_ok, pure_ok] at h
    obtain ⟨⟨moved, db₁⟩, hnew, rfl⟩ := h
    exact newClaimFor_leaves hnew

theorem transferClaims_leaves {c : Option Claim}
    (h : transferClaims host db actor reason attempt newHolder now ids = .ok (c, db')) : Leaves ps db db' := by
  simp only [transferClaims, bind_ok, pure_ok, Prod.mk.injEq] at h
  obtain ⟨m₁, hloop, m₂, hlast, _, rfl⟩ := h
  have h₀ : Leaves ps db (stopBoundClaims db actor reason attempt (some newHolder)) := stopBoundClaims_leaves ..
  have h₁ := foldlM_invariant (I := fun m : Moving => Leaves ps db m.db)
    (fun m c m' hm hc => hm.trans (moveClaim_leaves hc)) h₀ hloop
  exact h₁.trans (moveDefault_leaves hlast)

theorem takeOverClaim_leaves {r : ClaimTakeover} {uid : String}
    (h : takeOverClaim host db caller r uid now = .ok (c, db')) : Leaves ps db db' := by
  simp only [takeOverClaim, bind_ok] at h
  obtain ⟨driver, _, _, _, reason, _, _, _, _, _, _, _, _, _, h⟩ := h
  split at h
  · simp only [bind_ok, pure_ok, Prod.mk.injEq] at h
    obtain ⟨_, _, _, _, _, rfl⟩ := h
    exact Leaves.refl ps db
  · simp only [bind_ok, pure_ok, Prod.mk.injEq] at h
    obtain ⟨_, _, _, _, _, _, old, _, _, _, _, _, node, _, _, _, _, _, db₁, hacq, _, rfl⟩ := h
    exact ((sweep_leaves ..).trans (retireClaim_leaves ..).event).trans (acquire_leaves hacq)

theorem acceptClaim_leaves {hd : Handoff} {claimId driver : String} {fence : Int} {c : Option Claim}
    (h : acceptClaim host db caller hd claimId driver fence now ids = .ok (c, db')) : Leaves ps db db' := by
  simp only [acceptClaim, bind_ok, pure_ok, Prod.mk.injEq] at h
  obtain ⟨claim, _, _, _, ⟨fresh, db₁⟩, hnew, _, rfl⟩ := h
  exact (retireClaim_leaves ..).event.trans (newClaimFor_leaves hnew)

theorem renewClaim_leaves (now : Stamp) (db : DB) (row : Claim) : Leaves ps db (renewClaim now db row) :=
  setClaim_leaves ps _ db row.claimId

theorem beatClaim_leaves (db : DB) (p driver : String) (now : Stamp) (claimId : String) (fence : Int) :
    Leaves ps db (beatClaim db p driver now claimId fence).2 := by
  unfold beatClaim
  split
  · exact Leaves.refl ps db
  · split_ifs
    · exact Leaves.refl ps db
    · exact Leaves.refl ps db
    · exact Leaves.refl ps db
    · exact renewClaim_leaves ..

theorem beatAttempt_leaves (db : DB) (p driver : String) (now : Stamp) (i : String) (fence : Int) :
    Leaves ps db (beatAttempt db p driver now i fence).2 := by
  unfold beatAttempt
  split
  · exact Leaves.refl ps db
  · split_ifs
    · exact Leaves.refl ps db
    · exact Leaves.refl ps db
    · exact Leaves.refl ps db
    · exact Leaves.refl ps db
    · exact ⟨List.prefix_refl _, setAttempt_parts ps db i (fun _ _ _ => rfl)⟩

theorem beatSubagent_leaves (db : DB) (p driver : String) (now : Stamp) (label : String) :
    Leaves ps db (beatSubagent db p driver now label).2 := by
  unfold beatSubagent
  dsimp only
  split_ifs
  · exact Leaves.refl ps db
  · exact Leaves.refl ps db
  · exact Leaves.foldl (renewClaim_leaves now) db _

theorem beatAll_leaves {ι : Type} {f : DB → ι → List Beaten × DB} (hf : ∀ db x, Leaves ps db (f db x).2)
    (items : List ι) (acc : List Beaten × DB) : Leaves ps acc.2 (beatAll f items acc).2 := by
  unfold beatAll
  induction items generalizing acc with
  | nil => exact Leaves.refl ps acc.2
  | cons x items ih => exact (hf acc.2 x).trans (ih (acc.1 ++ (f acc.2 x).1, (f acc.2 x).2))

theorem heartbeat_leaves {claims attempts : List (String × Int)} {subagents : List String} {out : List Beaten}
    (h : heartbeat db caller p claims attempts subagents now = .ok (out, db')) :
    Leaves ps db db' := by
  simp only [heartbeat, bind_ok, pure_ok] at h
  obtain ⟨driver, _, _, _, _, _, h⟩ := h
  have hdb : _ = db' := congrArg Prod.snd h
  rw [← hdb]
  have h₀ : Leaves ps db (markBack db (some driver) now) := markBack_leaves ..
  have h₁ : Leaves ps _ _ := beatAll_leaves (fun db (x : String × Int) =>
      beatClaim_leaves db p driver now x.1 x.2) claims
    ([], markBack db (some driver) now)
  have h₂ : Leaves ps _ _ := beatAll_leaves (fun db (x : String × Int) => beatAttempt_leaves db p driver now x.1 x.2)
    attempts (beatAll (fun db i => beatClaim db p driver now i.1 i.2) claims ([], markBack db (some driver) now))
  exact ((h₀.trans h₁).trans h₂).trans (beatAll_leaves (fun db x => beatSubagent_leaves db p driver now x) ..)

end Claims

section Graph
variable {ps : List Part}

theorem createProject_leaves {title : String} {source : Option String} {row : Project}
    (h : createProject db p title source = .ok (row, db')) :
    Leaves [.projects] db db' ∧ db.projects <+: db'.projects := by
  simp only [createProject, bind_ok] at h
  obtain ⟨_, _, title', _, _, _, h⟩ := h
  cases hl : lookup Project.projectId db.projects p with
  | some existing =>
    simp only [hl, bind_ok, pure_ok, Prod.mk.injEq] at h
    obtain ⟨_, _, _, rfl⟩ := h
    exact ⟨Leaves.refl _ db, List.prefix_refl _⟩
  | none =>
    simp only [hl, pure_ok, Prod.mk.injEq] at h
    obtain ⟨_, rfl⟩ := h
    exact ⟨Leaves.logged rfl rfl, List.prefix_append _ _⟩

theorem add_leaves {specs : List NodeSpec} {keys : List String} (h : add host db p specs = .ok (keys, db')) :
    Leaves [.shape, .history] db db' := by
  obtain ⟨news, rfl, _⟩ := add_ok h
  exact Leaves.logged rfl rfl

theorem invalidate_leaves (db : DB) (p k : String) : Leaves ps db (invalidate db p k) :=
  ⟨List.prefix_refl _, invalidate_parts ps db p k⟩

variable {c : NodeChange} {reason : String} {rev : Int}

theorem revise_leaves {goal : Option String} {acceptance : Option (List CheckSpec)}
    {deps : Option (List String)}
    (h : revise host db p k rev reason goal acceptance deps = .ok (c, db')) : Leaves [.shape, .history] db db' := by
  simp only [revise, bind_ok, pure_ok, Prod.mk.injEq] at h
  obtain ⟨_, _, _, _, _, _, _, _, _, _, _, _, _, _, _, _, _, _, _, _, _, _, db₁, hsnap, _, rfl⟩ := h
  simp only [snapshotRevision, bind_ok, pure_ok] at hsnap
  obtain ⟨_, _, rfl⟩ := hsnap
  exact Leaves.logged rfl rfl

theorem split_leaves {children : List NodeSpec}
    (h : split host db p k rev children reason = .ok (c, db')) : Leaves [.shape, .history] db db' := by
  simp only [split, bind_ok, pure_ok, Prod.mk.injEq] at h
  obtain ⟨_, _, ⟨keys, db₁⟩, hadd, ⟨c', db₂⟩, hrev, _, rfl⟩ := h
  exact (add_leaves hadd).trans (revise_leaves hrev)

theorem supersede_leaves
    (h : supersede db p k rev reason = .ok (c, db')) : Leaves ps db db' := by
  simp only [supersede, bind_ok, pure_ok, ite_ok, Prod.mk.injEq] at h
  obtain ⟨_, _, _, _, _, _, _, _, ⟨_, _, rfl⟩ | ⟨_, _, rfl⟩⟩ := h
  · exact Leaves.refl ps db
  · have hset : Leaves ps (invalidate db p k) ((invalidate db p k).setNode (p, k)
        (fun n => { n with status := .SUPERSEDED })) :=
      ⟨List.prefix_refl _, setNode_parts ps _ _ (fun _ => rfl) (fun _ => rfl)⟩
    exact ((invalidate_leaves db p k).trans hset).event

theorem setFacet_leaves {facet : String} (h : setFacet db p k facet = .ok (c, db')) :
    Leaves [.shape] db db' := by
  simp only [setFacet, bind_ok, pure_ok, ite_ok, Prod.mk.injEq] at h
  obtain ⟨own, _, _, _, ⟨_, _, rfl⟩ | ⟨_, _, _, _, _, _, rfl⟩⟩ := h
  · exact Leaves.refl _ db
  · have hset : Leaves [.shape] db (db.setNode (p, k) (fun n => { n with facet := own })) := by
      refine ⟨List.prefix_refl _, ?_⟩
      have hh : (db.setNode (p, k) (fun n => { n with facet := own })).history = db.history := by
        refine Prod.ext ?_ rfl
        exact map_modifyWhere (fun _ _ => by rfl) db.nodes
      simp only [DB.parts, hh]
      rfl
    exact hset.event

theorem setNodePriority_leaves {priority expected : Int} {actor identity : Option String}
    (h : setNodePriority db p k priority expected reason actor identity = .ok (c, db')) :
    Leaves ps db db' := by
  simp only [setNodePriority, bind_ok, pure_ok, ite_ok, Prod.mk.injEq] at h
  obtain ⟨_, _, _, _, _, _, _, _, _, _, ⟨_, _, rfl⟩ | ⟨_, _, rfl⟩⟩ := h
  · exact Leaves.refl ps db
  · have hset : Leaves ps db (db.setNode (p, k) (fun n => { n with priority := priority })) :=
      ⟨List.prefix_refl _, setNode_parts ps _ _ (fun _ => rfl) (fun _ => rfl)⟩
    exact hset.event

theorem legacyStatus_leaves (db : DB) (source : String) (task : LegacyTask) :
    Leaves ps db (legacyStatus db p source task) := by
  unfold legacyStatus
  have hset : ∀ status, Leaves ps db (db.setNode (p, legacyKey task.id) (fun n => { n with status := status })) :=
    fun status => ⟨List.prefix_refl _, setNode_parts ps _ _ (fun _ => rfl) (fun _ => rfl)⟩
  dsimp only
  split_ifs
  · exact (hset .CANDIDATE).event
  · exact (hset .SUPERSEDED).event
  · exact (Leaves.refl ps db).event

theorem importTasks_leaves {source : String} {tasks : List LegacyTask} {keys : List String}
    (h : importTasks host db p source tasks = .ok (keys, db')) : Leaves [.shape, .history] db db' := by
  simp only [importTasks, bind_ok, pure_ok, Prod.mk.injEq] at h
  obtain ⟨_, _, _, _, _, _, specs, _, ⟨created, db₁⟩, hadd, _, rfl⟩ := h
  exact (add_leaves hadd).trans (Leaves.foldl (fun d task => legacyStatus_leaves d source task) db₁ tasks)

end Graph

section Attempts
variable {row : Attempt} {ps : List Part}

theorem pinContext_leaves (f : Context → Context) (db : DB) (i : String) : Leaves ps db (pinContext db i f) :=
  ⟨List.prefix_refl _, setAttempt_parts ps db i (fun _ _ _ => rfl)⟩

theorem recordPreflight_leaves {report : Json} {error : Option String}
    (h : recordPreflight db i report error = .ok (row, db')) : Leaves [.standings] db db' := by
  simp only [recordPreflight, bind_ok] at h
  obtain ⟨_, _, _, _, h⟩ := h
  split at h
  · simp only [bind_ok, pure_ok, Prod.mk.injEq] at h
    obtain ⟨_, _, _, _, _, rfl⟩ := h
    exact (setAttempt_leaves _ db i).event
  · simp only [pure_ok, Prod.mk.injEq] at h
    obtain ⟨_, rfl⟩ := h
    exact (Leaves.refl _ db).event

theorem pinRelay_leaves {relay : Json} (h : pinRelay db i relay = .ok (row, db')) : Leaves ps db db' := by
  simp only [pinRelay, bind_ok] at h
  obtain ⟨_, _, _, _, _, _, h⟩ := h
  split at h
  · simp only [bind_ok, pure_ok, Prod.mk.injEq] at h
    obtain ⟨_, _, _, rfl⟩ := h
    exact Leaves.refl ps db
  · simp only [bind_ok, pure_ok, Prod.mk.injEq] at h
    obtain ⟨_, _, _, _, _, rfl⟩ := h
    exact (pinContext_leaves _ db i).event

theorem pinPriorCandidate_leaves {prior : PriorRow} {value : Json}
    (h : pinPriorCandidate db i prior value = .ok (row, db')) : Leaves ps db db' := by
  simp only [pinPriorCandidate, bind_ok, ite_ok, pure_ok, Prod.mk.injEq] at h
  obtain ⟨_, _, ⟨_, _, rfl⟩ | ⟨_, h⟩⟩ := h
  · exact Leaves.refl ps db
  · split at h
    · simp only [pure_ok, Prod.mk.injEq] at h
      obtain ⟨_, rfl⟩ := h
      exact Leaves.refl ps db
    · simp only [bind_ok, pure_ok, Prod.mk.injEq] at h
      obtain ⟨_, _, _, rfl⟩ := h
      exact (pinContext_leaves _ db i).event

theorem reconcilePriorCandidate_leaves {expected value : Json}
    (h : reconcilePriorCandidate db i expected value = .ok (row, db')) : Leaves ps db db' := by
  simp only [reconcilePriorCandidate, bind_ok, ite_ok, pure_ok, Prod.mk.injEq] at h
  obtain ⟨_, _, ⟨_, _, rfl⟩ | ⟨_, _, _, _, rfl⟩⟩ := h
  · exact Leaves.refl ps db
  · exact (pinContext_leaves _ db i).event

theorem pinHostContract_leaves {descriptor : HostContract}
    (h : pinHostContract db i descriptor = .ok (row, db')) : Leaves ps db db' := by
  simp only [pinHostContract, bind_ok] at h
  obtain ⟨_, _, _, _, _, _, _, _, _, _, h⟩ := h
  split at h
  · simp only [bind_ok, pure_ok, Prod.mk.injEq] at h
    obtain ⟨_, _, _, rfl⟩ := h
    exact Leaves.refl ps db
  · simp only [bind_ok, pure_ok, Prod.mk.injEq] at h
    obtain ⟨_, _, _, _, _, rfl⟩ := h
    exact (pinContext_leaves _ db i).event

theorem retireReservation_leaves {reason : String} (h : retireReservation db i reason = .ok (row, db')) :
    Leaves [.standings] db db' := by
  simp only [retireReservation, bind_ok, ite_ok, pure_ok, Prod.mk.injEq] at h
  obtain ⟨_, _, _, _, ⟨_, _, rfl⟩ | ⟨_, _, _, _, _, _, rfl⟩⟩ := h
  · exact Leaves.refl _ db
  · exact (setAttempt_leaves _ db i).event

theorem launchUncertain_leaves {reason : String} (h : launchUncertain db i reason = .ok (row, db')) :
    Leaves [.standings] db db' := by
  simp only [launchUncertain, bind_ok, ite_ok, pure_ok, Prod.mk.injEq] at h
  obtain ⟨_, _, _, _, ⟨_, _, rfl⟩ | ⟨_, _, _, _, rfl⟩⟩ := h
  · exact Leaves.refl _ db
  · exact (setAttempt_leaves _ db i).event

theorem bindRunWrite_leaves {call : BindCall} (h : bindRunWrite db call = .ok (row, db')) :
    Leaves [.standings] db db' := by
  simp only [bindRunWrite, bind_ok] at h
  obtain ⟨_, _, h⟩ := h
  split at h
  · simp only [bind_ok, pure_ok, Prod.mk.injEq] at h
    obtain ⟨_, _, _, rfl⟩ := h
    exact Leaves.refl _ db
  · simp only [bind_ok, pure_ok, Prod.mk.injEq] at h
    obtain ⟨_, _, _, _, _, _, _, rfl⟩ := h
    exact (setAttempt_leaves _ db call.attemptId).event

theorem claimLaunch_leaves {claimId : Option String} {fence : Option Int} {now : Stamp} {b : Bool}
    (h : claimLaunch host db caller i claimId fence now = .ok (b, db')) : Leaves [.standings] db db' := by
  simp only [claimLaunch, bind_ok, ite_ok, pure_ok, Prod.mk.injEq] at h
  obtain ⟨_, _, ⟨_, _, rfl⟩ | ⟨_, ⟨bg, rebind⟩, _, _, _, _, _, ⟨_, _, rfl⟩ | ⟨_, _, rfl⟩⟩⟩ := h
  · exact Leaves.refl _ db
  · exact (setAttempt_leaves _ db i).event
  · exact ((setAttempt_leaves _ db i).trans (bindClaim_leaves ..)).event

theorem storeReportBlob_leaves {ref sha : String} {bytes : List UInt8}
    (h : storeReportBlob db ref sha bytes = .ok db') : Leaves ps db db' := by
  unfold storeReportBlob at h
  split at h
  · simp only [bind_ok, pure_ok] at h
    obtain ⟨_, _, rfl⟩ := h
    exact Leaves.refl ps db
  · rw [pure_ok] at h
    subst h
    exact ⟨List.prefix_refl _, rfl⟩

theorem storeOptionalBlob_leaves {r : EvidenceRequest} (h : storeOptionalBlob db r = .ok db') : Leaves ps db db' := by
  unfold storeOptionalBlob at h
  split at h
  · exact storeReportBlob_leaves h
  · rw [pure_ok] at h
    subst h
    exact Leaves.refl ps db

theorem writeEvidence_leaves (db : DB) (n : Node) (a : Attempt) (row : Evidence) :
    Leaves ps db (writeEvidence db n a row) := by
  unfold writeEvidence
  have hrow : Leaves ps db { db with evidence := db.evidence ++ [row] } := ⟨List.prefix_refl _, rfl⟩
  dsimp only
  split_ifs
  · exact (hrow.trans (invalidate_leaves ..)).event
  · exact hrow

theorem recordEvidence_leaves {r : EvidenceRequest} {out : Evidence}
    (h : recordEvidence host db r = .ok (out, db')) : Leaves ps db db' := by
  simp only [recordEvidence, bind_ok] at h
  obtain ⟨r', _, a, _, h⟩ := h
  split at h
  · simp only [bind_ok, pure_ok, Prod.mk.injEq] at h
    obtain ⟨_, _, db₁, hblob, _, rfl⟩ := h
    exact storeOptionalBlob_leaves hblob
  · simp only [bind_ok, pure_ok, Prod.mk.injEq] at h
    obtain ⟨_, _, _, _, db₁, hblob, _, _, node, _, _, rfl⟩ := h
    exact ((storeOptionalBlob_leaves hblob).trans (writeEvidence_leaves ..)).event

theorem verify_leaves {attemptId reviewer uid : String} {revision : Int} {bytes : Bool} {out : Acceptance}
    (h : verify host db p k revision attemptId reviewer bytes uid = .ok (out, db')) : Leaves ps db db' := by
  simp only [verify, bind_ok] at h
  obtain ⟨_, _, _, _, _, _, _, _, _, _, _, _, _, _, _, _, h⟩ := h
  simp only [ite_ok, bind_ok, pure_ok, Prod.mk.injEq] at h
  rcases h with ⟨_, _, _, _, rfl⟩ | ⟨_, _, _, _, rfl⟩
  · exact Leaves.refl ps db
  · refine Leaves.event ⟨List.prefix_refl _, ?_⟩
    exact setNode_parts ps _ _ (fun _ => rfl) (fun _ => rfl)

end Attempts

section Policy
variable {reason : String} {revision : Int} {ps : List Part}

theorem setDispatch_leaves {dispatch : Dispatch} (h : setDispatch db caller p dispatch revision reason = .ok db') :
    Leaves [.settings] db db' := by
  simp only [setDispatch, bind_ok, pure_ok] at h
  obtain ⟨_, _, rfl⟩ := h
  exact Leaves.logged rfl rfl

theorem setClaimEnforcement_leaves {switch : Switch}
    (h : setClaimEnforcement db caller p switch revision reason = .ok db') : Leaves [.settings] db db' := by
  simp only [setClaimEnforcement, bind_ok, pure_ok] at h
  obtain ⟨_, _, _, _, rfl⟩ := h
  exact Leaves.logged rfl rfl

theorem setReviewIndependence_leaves {mode : Independence}
    (h : setReviewIndependence db caller p mode revision reason = .ok db') : Leaves [.settings] db db' := by
  simp only [setReviewIndependence, bind_ok, pure_ok] at h
  obtain ⟨_, _, _, _, rfl⟩ := h
  exact Leaves.logged rfl rfl

theorem setHold_leaves {held : Bool} (h : setHold db caller p k held revision reason = .ok db') :
    Leaves ps db db' := by
  simp only [setHold, bind_ok, pure_ok] at h
  obtain ⟨_, _, _, _, _, _, _, _, rfl⟩ := h
  exact Leaves.logged rfl rfl

theorem bindSource_leaves {repoPath commonDir : String}
    (h : bindSource db caller p repoPath commonDir revision = .ok db') : Leaves ps db db' := by
  simp only [bindSource, bind_ok, pure_ok] at h
  obtain ⟨_, _, _, _, _, _, _, _, rfl⟩ := h
  exact Leaves.logged rfl rfl

theorem waitBegin_leaves {driverId waitId : String} {timeout : Nat} {now : Stamp}
    (h : waitBegin host db driverId waitId timeout now = .ok db') : Leaves ps db db' := by
  simp only [waitBegin, bind_ok, pure_ok] at h
  obtain ⟨_, _, rfl⟩ := h
  exact ⟨List.prefix_refl _, rfl⟩

theorem declare_leaves {driverId : Option String} {offline : Bool} {reason : String} {expected : Option Stamp}
    {now : Stamp} (h : declare db driverId offline reason expected now = .ok db') : Leaves ps db db' := by
  simp only [declare, bind_ok, ite_ok, pure_ok] at h
  obtain ⟨driver, _, _, _, _, _, _, _, ⟨_, h⟩ | ⟨_, rfl⟩⟩ := h
  · split at h
    · rw [pure_ok] at h
      subst h
      exact ⟨List.prefix_refl _, rfl⟩
    · rw [pure_ok] at h
      subst h
      exact ⟨List.prefix_refl _, rfl⟩
  · exact ⟨List.prefix_refl _, rfl⟩

end Policy

section Desk

variable {now : Stamp} {ps : List Part}

theorem offerHandoff_leaves {o : Offer} {retained : ReportRef → Result Unit} {uid : String} {row : Handoff}
    (h : offerHandoff host db caller o retained uid now = .ok (row, db')) :
    Leaves [.handoffs] db db' := by
  simp only [offerHandoff, bind_ok] at h
  obtain ⟨driver, _, _, _, _, _, _, _, ⟨attempt, nodeKey⟩, _, _, _, h⟩ := h
  split at h
  · simp only [bind_ok, pure_ok, Prod.mk.injEq] at h
    obtain ⟨_, _, _, rfl⟩ := h
    exact Leaves.refl _ db
  · simp only [bind_ok, pure_ok, Prod.mk.injEq] at h
    obtain ⟨_, _, _, _, _, rfl⟩ := h
    exact Leaves.logged rfl rfl

theorem decideHandoff_leaves (db : DB) (handoffId : String) (status : HandoffStatus) (by_ reason : String) :
    Leaves [.handoffs] db (decideHandoff db handoffId status by_ reason) :=
  ⟨List.prefix_refl _, rfl⟩

theorem declineHandoff_leaves {handoffId reason : String}
    (h : declineHandoff db caller p handoffId reason now = .ok db') : Leaves [.handoffs] db db' := by
  simp only [declineHandoff, bind_ok, pure_ok] at h
  obtain ⟨_, _, _, _, _, _, _, _, _, _, rfl⟩ := h
  exact (decideHandoff_leaves ..).event

theorem withdrawHandoff_leaves {handoffId reason : String}
    (h : withdrawHandoff db caller p handoffId reason now = .ok db') : Leaves [.handoffs] db db' := by
  simp only [withdrawHandoff, bind_ok, pure_ok, ite_ok] at h
  obtain ⟨_, _, _, _, _, _, _, _, ⟨_, rfl⟩ | ⟨_, _, _, rfl⟩⟩ := h
  · exact Leaves.refl _ db
  · exact (decideHandoff_leaves ..).event

theorem setOwner_leaves (db : DB) (a : Attempt) (driver : String) (now : Stamp) :
    Leaves ps db (setOwner db a driver now) :=
  ⟨List.prefix_refl _, setAttempt_parts ps db a.attemptId (fun _ _ _ => rfl)⟩

theorem voidOpenHandoffs_leaves (db : DB) (i reason : String) : Leaves [.handoffs] db (voidOpenHandoffs db i reason) :=
  ⟨List.prefix_refl _, rfl⟩

theorem acceptHandoff_leaves {handoffId : String} {fence : Int} {ids : Nat → String}
    {c : Option Claim} (h : acceptHandoff host db caller p handoffId fence now ids = .ok (c, db')) :
    Leaves [.handoffs] db db' := by
  simp only [acceptHandoff, bind_ok, pure_ok, Prod.mk.injEq] at h
  obtain ⟨driver, _, hd, _, _, _, _, _, ⟨claim, db₁⟩, hsub, _, rfl⟩ := h
  refine Leaves.trans ?_ (decideHandoff_leaves ..)
  unfold acceptSubject at hsub
  split at hsub
  · simp only [acceptAttempt, bind_ok, pure_ok, Prod.mk.injEq] at hsub
    obtain ⟨attempt, _, _, _, _, _, ⟨_, db₂⟩, htr, _, rfl⟩ := hsub
    exact ((setOwner_leaves db attempt driver now).trans (transferClaims_leaves htr)).event
  · exact acceptClaim_leaves hsub
  · cases hsub

theorem takeOverAttempt_leaves {fence : Int} {reason : String} {override : Option String}
    {ids : Nat → String} {row : Attempt} {c : Option Claim}
    (h : takeOverAttempt host db caller i fence reason override now ids = .ok (row, c, db')) :
    Leaves [.handoffs] db db' := by
  simp only [takeOverAttempt, bind_ok, pure_ok, Prod.mk.injEq] at h
  obtain ⟨_, _, _, _, driver, _, _, _, attempt, _, _, _, _, _, ⟨claim, db₁⟩, htr, _, _, _, _, rfl⟩ := h
  have hmoved : Leaves [.handoffs] db db₁ := (setOwner_leaves db attempt driver now).trans (transferClaims_leaves htr)
  exact (hmoved.trans (voidOpenHandoffs_leaves ..)).event

theorem markAbandoned_leaves (db : DB) (a : Attempt) (kind : AbandonKind) (reason : String) (now : Stamp) :
    Leaves [.standings, .owners] db (markAbandoned db a kind reason now) :=
  ⟨List.prefix_refl _, rfl⟩

theorem storeAbandonReport_leaves {report : Option (String × String × List UInt8)}
    (h : storeAbandonReport db report = .ok db') : Leaves ps db db' := by
  unfold storeAbandonReport at h
  split at h
  · exact storeReportBlob_leaves h
  · rw [pure_ok] at h
    subst h
    exact Leaves.refl ps db

theorem abandonExternalAttempt_leaves {r : AbandonRequest} {kept : Except StateError (String × List UInt8)}
    {row : Attempt} (h : abandonExternalAttempt host db caller r kept now = .ok (row, db')) :
    Leaves [.standings, .owners, .handoffs] db db' := by
  simp only [abandonExternalAttempt, bind_ok, pure_ok, Prod.mk.injEq] at h
  obtain ⟨reason, _, _, _, _, _, report, _, attempt, _, _, _, _, _, db₁, hstore, _, _, _, rfl⟩ := h
  have hmark : Leaves [.standings, .owners, .handoffs] db₁ (markAbandoned db₁ attempt r.abandonKind reason now) :=
    (markAbandoned_leaves ..).mono (by decide)
  have hvoid : ∀ d : DB, Leaves [.standings, .owners, .handoffs] d
      (voidOpenHandoffs d attempt.attemptId "attempt abandoned") :=
    fun d => (voidOpenHandoffs_leaves ..).mono (by decide)
  exact ((((storeAbandonReport_leaves hstore).trans hmark).trans (stopBoundClaims_leaves ..)).trans (hvoid _)).event

theorem reserveView_leaves (db : DB) (caller : Caller) (r : ReserveRequest) :
    Leaves ps db (reserveView db caller r) := by
  unfold reserveView
  split_ifs
  · exact markBack_leaves ..
  · exact Leaves.refl ps db

theorem insertOwner_leaves (db : DB) (row : Attempt) (external : Option ExternalIdentity) :
    Leaves [.standings, .owners] db (insertOwner db row external) := by
  cases external <;> exact ⟨List.prefix_refl _, rfl⟩

theorem writeAdmission_leaves (db : DB) (r : ReserveRequest) (row : Attempt) (claim : Option Claim)
    (breakGlass : Bool) : Leaves [.standings, .owners] db (writeAdmission db r row claim breakGlass) := by
  unfold writeAdmission
  have hrow : Leaves [.standings, .owners] db { db with attempts := db.attempts ++ [row] } :=
    ⟨List.prefix_refl _, rfl⟩
  have howner := (hrow.trans (bindClaim_leaves _ _ claim row.attemptId)).trans (insertOwner_leaves _ row r.external)
  have hnode : ∀ d : DB, Leaves [.standings, .owners] d (d.setNode r.node (fun n => { n with status := .OPEN })) :=
    fun d => ⟨List.prefix_refl _, setNode_parts _ _ _ (fun _ => rfl) (fun _ => rfl)⟩
  dsimp only
  split
  · exact (howner.trans (hnode _)).event.event
  · exact (howner.trans (hnode _)).event

theorem reserveOnce_leaves {r : ReserveRequest} {preflight : Preflight} {out : Reserved}
    (h : reserveOnce host db caller r preflight = .ok (out, db')) : Leaves [.standings, .owners] db db' := by
  rcases reserveOnce_ok h with ⟨claim, i, rfl⟩ | ⟨row, node, claim, bg, _, _, hadm⟩
  · exact (reserveView_leaves db caller r).trans (bindClaim_leaves ..)
  · rw [hadm.written]
    exact (reserveView_leaves db caller r).trans (writeAdmission_leaves ..)

end Desk

section Outcomes

variable {ps : List Part} {call : ObserveCall}

theorem retractAccepted_leaves (db : DB) (n : Node) (a : Attempt) (s : AttemptStatus)
    (reason : String) : Leaves ps db (retractAccepted db n a s reason) := by
  unfold retractAccepted
  split_ifs
  · exact (invalidate_leaves ..).event
  · exact Leaves.refl ps db

theorem writeReconciled_leaves (db : DB) (n : Node) (a : Attempt) (s : AttemptStatus) (art : Option String)
    (row : EngineRow) (fresh : Bool) : Leaves [.standings] db (writeReconciled db n a s art row fresh) := by
  have hsettle : Leaves [.standings] db (settleRun db n a s art row) :=
    (retractAccepted_leaves ..).trans (setAttempt_leaves ..)
  have hoffer : ∀ d : DB, Leaves [.standings] d (d.setNode a.node offerCandidate) := by
    intro d
    refine ⟨List.prefix_refl _, setNode_parts _ _ _ (fun m => ?_) (fun m => ?_)⟩
    · unfold offerCandidate
      split_ifs <;> rfl
    · unfold offerCandidate
      split_ifs <;> rfl
  unfold writeReconciled
  dsimp only
  split_ifs
  · exact (hsettle.trans (hoffer _)).event
  · exact hsettle.event

theorem reconcileWrite_leaves {call : ReconcileCall} {row : Attempt} {stale : Bool}
    (h : reconcileWrite db call = .ok (row, stale, db')) : Leaves [.standings] db db' := by
  simp only [reconcileWrite, bind_ok, pure_ok, Prod.mk.injEq] at h
  obtain ⟨a, _, _, _, fresh, _, _, _, _, _, art, _, n, _, row', _, _, _, rfl⟩ := h
  have hchanged : ∀ c : Bool, Leaves [.standings] db (if c = true then
      writeReconciled db n a (reconciledStatus call fresh) art call.row fresh else db) := by
    intro c
    cases c
    · exact Leaves.refl _ db
    · exact writeReconciled_leaves ..
  have hrelease : ∀ (c : Bool) (x : DB) (actor : String) (st : AttemptStatus),
      Leaves [.standings] x (if c = true then releaseBoundClaims x a actor st else x) := by
    intro c x actor st
    cases c
    · exact Leaves.refl ..
    · exact releaseBoundClaims_leaves ..
  exact (hchanged _).trans (hrelease ..)

theorem storeReport_leaves (h : storeReport db call = .ok db') :
    Leaves ps db db' := by
  unfold storeReport at h
  split at h
  · exact storeReportBlob_leaves h
  · rw [pure_ok] at h
    subst h
    exact Leaves.refl ps db

theorem storeCandidate_leaves {artifact : Option GitArtifact}
    (h : storeCandidate db artifact = .ok db') : Leaves ps db db' := by
  unfold storeCandidate at h
  split at h
  · rw [pure_ok] at h
    subst h
    exact Leaves.refl ps db
  · split at h
    · simp only [bind_ok, pure_ok] at h
      obtain ⟨_, _, rfl⟩ := h
      exact Leaves.refl ps db
    · rw [pure_ok] at h
      subst h
      exact ⟨List.prefix_refl _, rfl⟩

theorem appendObservation_leaves {row : Observation}
    (h : appendObservation db call row = .ok db') : Leaves [.observations] db db' := by
  simp only [appendObservation, bind_ok, pure_ok] at h
  obtain ⟨db₁, h₁, db₂, h₂, _, _, rfl⟩ := h
  exact ((storeReport_leaves h₁).trans (storeCandidate_leaves h₂)).trans ⟨List.prefix_refl _, rfl⟩

theorem writeLate_leaves (db : DB) (call : ObserveCall) (a : Attempt) (row : Observation) (current : Bool)
    (now : Stamp) : Leaves [.owners] db (writeLate db call a row current now) := by
  have hversion : Leaves [.owners] db (db.setAttempt a.attemptId
      (fun x => { x with observationVersion := row.version })) :=
    ⟨List.prefix_refl _, setAttempt_parts _ db a.attemptId (fun _ _ _ => rfl)⟩
  have hsettle : ∀ d : DB, Leaves [.owners] d (settleAbandoned d call.request a now) := by
    intro d
    unfold settleAbandoned
    split_ifs
    · exact ⟨List.prefix_refl _, rfl⟩
    · exact Leaves.refl _ d
  exact (hversion.trans (hsettle _)).event

theorem writeObserved_leaves (db : DB) (call : ObserveCall) (a : Attempt) (row : Observation) (n : Node)
    (current : Bool) (now : Stamp) :
    Leaves [.standings, .owners] db (writeObserved db call a row n current now) := by
  have howner : Leaves [.standings, .owners] db (settleOwner db a.attemptId (ownerStatusOf row.resultingStatus) now) :=
    ⟨List.prefix_refl _, rfl⟩
  have hsettle : Leaves [.standings, .owners] db (settleObserved db call.request a row n now) :=
    (howner.trans (retractAccepted_leaves ..)).trans ⟨List.prefix_refl _, rfl⟩
  have hoffer : Leaves [.standings, .owners] db
      (offerObserved (settleObserved db call.request a row n now) a row n) := by
    unfold offerObserved
    split_ifs
    · exact hsettle.trans ⟨List.prefix_refl _, setNode_parts _ _ _ (fun _ => rfl) (fun _ => rfl)⟩
    · exact hsettle
  unfold writeObserved releaseSettled
  dsimp only
  split_ifs
  · exact hoffer.event.trans (releaseBoundClaims_leaves ..)
  · exact hoffer.event

theorem observeWrite_leaves {now : Stamp} {out : Attempt} {o : Observation}
    (h : observeWrite host db call now = .ok (out, o, db')) :
    Leaves [.standings, .owners, .observations] db db' := by
  have hback := markBack_leaves [.standings, .owners, .observations] db call.caller.driverId now
  cases observeWrite_result h with
  | replayed => exact hback
  | late a n row db₁ reported appended =>
    exact (hback.trans ((appendObservation_leaves appended).mono (by decide))).trans
      ((writeLate_leaves ..).mono (by decide))
  | counted a n row db₁ reported appended =>
    exact (hback.trans ((appendObservation_leaves appended).mono (by decide))).trans
      ((writeObserved_leaves ..).mono (by decide))

end Outcomes

section Runs
variable {reply : Reply} {s : Sys} {op : Op} {ops : List Op}

theorem structuralBy_leaves {caller : Option Caller} {action : String} {write : DB → Result (NodeChange × DB)}
    (h : structuralBy caller db p k action write = .ok (reply, db')) :
    ∃ c db₁, write db = .ok (c, db₁) ∧ ∀ ps, Leaves ps db₁ db' := by
  obtain ⟨c, hx⟩ := answer_ok h
  cases caller with
  | none => exact ⟨c, db', hx, fun ps => Leaves.refl ps db'⟩
  | some caller =>
    simp only [structural, bind_ok, ite_ok, pure_ok, Prod.mk.injEq] at hx
    obtain ⟨_, _, ⟨out, db₁⟩, hw, ⟨_, _, rfl⟩ | ⟨_, _, rfl⟩⟩ := hx
    · exact ⟨out, db₁, hw, fun ps => Leaves.refl ps db₁⟩
    · exact ⟨out, db₁, hw, fun ps => (Leaves.refl ps db₁).event⟩

/-- The parts a request writes. -/
def Request.writes : Request → List Part
  | .createProject .. => [.projects]
  | .addNodes .. | .reviseNode .. | .splitNode .. | .importTasks .. => [.shape, .history]
  | .bindNode .. => [.shape, .history, .design]
  | .createRevision .. | .createBaseline .. => [.design]
  | .setDispatch .. | .setClaimEnforcement .. | .setReviewIndependence .. => [.settings]
  | .setNodeFacet .. => [.shape]
  | .reserve .. | .register .. | .registerCheck .. => [.standings, .owners]
  | .recordPreflight .. | .claimLaunch .. | .retireReservation .. | .launchUncertain .. => [.standings]
  | .abandon .. => [.standings, .owners, .handoffs]
  | .takeOverAttempt .. | .offerHandoff .. | .acceptHandoff .. | .declineHandoff .. | .withdrawHandoff .. => [.handoffs]
  | _ => []

/-- The parts a pending call writes. -/
def Call.writes : Call → List Part
  | .bindRun _ | .reconcile _ => [.standings]
  | .observe _ => [.standings, .owners, .observations]
  | .register .. => [.standings, .owners]

theorem Request.leaves {r : Request} (h : r.run host db = .ok (reply, db')) : Leaves r.writes db db' := by
  cases r with
  | createProject p title source =>
    obtain ⟨_, h⟩ := answer_ok h
    exact (createProject_leaves h).1
  | addNodes p specs =>
    obtain ⟨_, h⟩ := answer_ok h
    exact add_leaves h
  | reviseNode caller p k revision reason goal acceptance deps =>
    obtain ⟨_, db₁, hw, hlog⟩ := structuralBy_leaves h
    exact (revise_leaves hw).trans (hlog _)
  | splitNode caller p k revision children reason =>
    obtain ⟨_, db₁, hw, hlog⟩ := structuralBy_leaves h
    exact (split_leaves hw).trans (hlog _)
  | supersedeNode caller p k revision reason =>
    obtain ⟨_, db₁, hw, hlog⟩ := structuralBy_leaves h
    exact (supersede_leaves hw).trans (hlog _)
  | setNodeFacet caller p k facet =>
    obtain ⟨_, db₁, hw, hlog⟩ := structuralBy_leaves h
    exact (setFacet_leaves hw).trans (hlog _)
  | setNodePriority p k priority expected reason actor identity =>
    obtain ⟨_, h⟩ := answer_ok h
    exact setNodePriority_leaves h
  | importTasks p source tasks =>
    obtain ⟨_, h⟩ := answer_ok h
    exact importTasks_leaves h
  | createRevision p actor createdAt spec =>
    obtain ⟨_, h⟩ := answer_ok h
    obtain ⟨e, rfl⟩ := createRevision_ok h
    exact ⟨List.prefix_append _ _, rfl⟩
  | createBaseline p actor baselineId selected expected =>
    obtain ⟨_, h⟩ := answer_ok h
    obtain ⟨_, e, rfl⟩ := createBaseline_ok h
    exact ⟨List.prefix_append _ _, rfl⟩
  | bindNode p actor k revision baselineId bindings reason =>
    obtain ⟨_, h⟩ := answer_ok h
    obtain ⟨db₁, row, e, hrev, rfl⟩ := bindNode_ok h
    exact ((revise_leaves hrev).mono (by simp [Request.writes])).trans ⟨List.prefix_append _ _, rfl⟩
  | setDispatch caller p dispatch revision reason => exact setDispatch_leaves (done_ok h)
  | setClaimEnforcement caller p switch revision reason => exact setClaimEnforcement_leaves (done_ok h)
  | setReviewIndependence caller p mode revision reason => exact setReviewIndependence_leaves (done_ok h)
  | setHold caller p k held revision reason => exact setHold_leaves (done_ok h)
  | bindSource caller p repoPath commonDir revision => exact bindSource_leaves (done_ok h)
  | reserve caller workflow request =>
    obtain ⟨_, h⟩ := answer_ok h
    obtain ⟨_, _, h⟩ := reserve_ok h
    exact reserveOnce_leaves h
  | register caller harness externalId request =>
    obtain ⟨_, h⟩ := answer_ok h
    obtain ⟨_, _, h⟩ := register_ok h
    exact reserveOnce_leaves h
  | registerCheck caller harness externalId request =>
    obtain ⟨_, h⟩ := answer_ok h
    obtain ⟨_, _, h⟩ := register_ok h
    exact reserveOnce_leaves h
  | recordPreflight i report error =>
    obtain ⟨_, h⟩ := answer_ok h
    exact recordPreflight_leaves h
  | pinRelay i relay =>
    obtain ⟨_, h⟩ := answer_ok h
    exact pinRelay_leaves h
  | pinPriorCandidate i prior value =>
    obtain ⟨_, h⟩ := answer_ok h
    exact pinPriorCandidate_leaves h
  | reconcilePriorCandidate i expected value =>
    obtain ⟨_, h⟩ := answer_ok h
    exact reconcilePriorCandidate_leaves h
  | pinHostContract i descriptor =>
    obtain ⟨_, h⟩ := answer_ok h
    exact pinHostContract_leaves h
  | claimLaunch caller i claimId fence now =>
    obtain ⟨_, h⟩ := answer_ok h
    exact claimLaunch_leaves h
  | retireReservation i reason =>
    obtain ⟨_, h⟩ := answer_ok h
    exact retireReservation_leaves h
  | launchUncertain i reason =>
    obtain ⟨_, h⟩ := answer_ok h
    exact launchUncertain_leaves h
  | recordEvidence request =>
    obtain ⟨_, h⟩ := answer_ok h
    exact recordEvidence_leaves h
  | verify p k revision i reviewer bytes uid =>
    obtain ⟨_, h⟩ := answer_ok h
    exact verify_leaves h
  | abandon caller request kept now =>
    obtain ⟨_, h⟩ := answer_ok h
    exact abandonExternalAttempt_leaves h
  | takeOverAttempt caller i fence reason overrideReason now ids =>
    obtain ⟨_, hx⟩ := answer_ok h
    simp only [map_ok, Prod.mk.injEq] at hx
    obtain ⟨_, hx, _, rfl⟩ := hx
    exact takeOverAttempt_leaves hx
  | claimNode caller request claimId now =>
    simp only [Request.run] at h
    obtain ⟨_, h⟩ := answer_ok h
    exact claimNode_leaves h
  | releaseClaim caller p claimId fence reason =>
    simp only [Request.run] at h
    obtain ⟨_, h⟩ := answer_ok h
    exact releaseClaim_leaves h
  | heartbeat caller p claims attempts subagents now =>
    obtain ⟨_, h⟩ := answer_ok h
    exact heartbeat_leaves h
  | sweep actor p now =>
    cases h
    exact sweep_leaves ..
  | takeOverClaim caller request uid now =>
    simp only [Request.run] at h
    obtain ⟨_, h⟩ := answer_ok h
    exact takeOverClaim_leaves h
  | offerHandoff caller offer retained uid now =>
    obtain ⟨_, h⟩ := answer_ok h
    exact offerHandoff_leaves h
  | acceptHandoff caller p handoffId fence now ids =>
    obtain ⟨_, h⟩ := answer_ok h
    exact acceptHandoff_leaves h
  | declineHandoff caller p handoffId reason now => exact declineHandoff_leaves (done_ok h)
  | withdrawHandoff caller p handoffId reason now => exact withdrawHandoff_leaves (done_ok h)
  | declarePresence driverId offline reason expectedReturn now => exact declare_leaves (done_ok h)
  | waitBegin driverId waitId timeout now => exact waitBegin_leaves (done_ok h)
  | waitEnd waitId now =>
    cases h
    exact ⟨List.prefix_refl _, rfl⟩
  | registry drivers projectDrivers =>
    cases h
    exact ⟨List.prefix_refl _, rfl⟩

theorem Call.leaves {c : Call} {now : Stamp} (h : c.run host db now = .ok (reply, db')) : Leaves c.writes db db' := by
  cases c with
  | bindRun x =>
    obtain ⟨_, hx⟩ := answer_ok h
    exact bindRunWrite_leaves hx
  | reconcile x =>
    obtain ⟨_, _, hx⟩ := reconcile_ok h
    exact reconcileWrite_leaves hx
  | observe x =>
    obtain ⟨_, _, hx⟩ := observe_ok h
    exact observeWrite_leaves hx
  | register caller harness externalId request source =>
    obtain ⟨_, hx⟩ := answer_ok h
    obtain ⟨_, _, hx⟩ := register_ok hx
    exact reserveOnce_leaves hx

def Txn.writes : Txn → List Part
  | .request r => r.writes
  | .commit call _ => call.writes

theorem Txn.leaves {t : Txn} (h : t.run host db = .ok (reply, db')) : Leaves t.writes db db' := by
  cases t with
  | request r => exact Request.leaves h
  | commit call now => exact Call.leaves h

/-- A step adds to the log and never takes a row of it away. -/
theorem next_log (host : Host) (s : Sys) (op : Op) : s.db.events <+: (next host s op).db.events := by
  rcases next_db host s op with he | ⟨t, reply, h⟩
  · rw [he]
  · exact (Txn.leaves h).log

theorem run_log (host : Host) (s : Sys) (ops : List Op) : s.db.events <+: (run (next host) s ops).db.events := by
  induction ops generalizing s with
  | nil => exact List.prefix_refl _
  | cons op ops ih => exact (next_log host s op).trans (ih _)

end Runs

end AItelier.State
