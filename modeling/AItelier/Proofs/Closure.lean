import AItelier.Refine.System

namespace AItelier.State

open AItelier.Lib AItelier.Ledger

variable {db : DB} {k d : NodeId} {n m : Node} {a : Attempt} {i receipt : String} {r : Acceptance}

section Latest

theorem latestAttempt_attempt? (ho : Orderly (ledger db)) (h : db.latestAttempt k = some a) :
    db.attempt? a.attemptId = some a := by
  have hd : (db.attempts.map Attempt.attemptId).Nodup := ho.distinct
  exact lookup_of_mem hd (latest_mem h).1

theorem latestAttempt_of_latest (ho : Orderly (ledger db)) (h : (ledger db).latest k = some i) :
    ∃ a, db.latestAttempt k = some a ∧ db.attempt? i = some a := by
  simp only [ledger, Option.map_eq_some_iff] at h
  obtain ⟨a, ha, rfl⟩ := h
  exact ⟨a, ha, latestAttempt_attempt? ho ha⟩

end Latest

/-- `d` is a direct dependency of `k`. -/
def DependsOn (db : DB) (k d : NodeId) : Prop := ∃ key ∈ depsOf db k.1 k.2, d = (k.1, key)

/-- An acceptance in force: the receipt names the node as it is, its attempt is
the latest one, a candidate on current pins, the dependencies carry the receipts
it recorded, and the latest evidence of every criterion is a pass. -/
structure InForce (db : DB) (n : Node) (r : Acceptance) (a : Attempt) : Prop where
  issued : n.verifiedReceipt.bind db.acceptance? = some r
  node : (r.projectId, r.nodeKey) = n.id
  revision : r.nodeRevision = n.revision
  contractHash : r.contractHash = n.contractHash
  attempt : a.attemptId = r.attemptId
  latest : db.latestAttempt n.id = some a
  candidate : a.status = .candidate
  current : pinsMatch db n a = true
  snapshot : r.dependencySnapshot = dependencySnapshot db n.id
  deps : ∀ d, DependsOn db n.id d → ∃ m, db.node? d = some m ∧ m.status = .VERIFIED ∧
    m.verifiedReceipt.isSome ∧ ∃ row ∈ r.dependencySnapshot, row.nodeKey = d.2 ∧ row.verifiedReceipt = m.verifiedReceipt
  judged : ∀ c ∈ n.contract, (latestEvidence db r.attemptId c.id).map Evidence.verdict = some .pass

theorem mem_dependencySnapshot (h : DependsOn db k d) (hm : db.node? d = some m) :
    ⟨d.2, m.revision, m.contractHash, m.status, m.verifiedReceipt⟩ ∈ dependencySnapshot db k := by
  obtain ⟨key, hkey, rfl⟩ := h
  have hk : m.nodeKey = key := congrArg Prod.snd (node_id hm)
  exact List.mem_filterMap.mpr ⟨key, hkey, by simp [hm, hk]⟩

/-- A verified node of a sound ledger has its acceptance in force. -/
theorem inForce_of_sound (ho : Orderly (ledger db)) (hs : Sound (ledger db)) (hn : db.node? k = some n)
    (hv : n.status = .VERIFIED) : ∃ r a, InForce db n r a := by
  have hk : n.id = k := node_id hn
  have hf := ledger_fact hn
  obtain ⟨receipt, hr⟩ := Option.isSome_iff_exists.mp ((hs.verified k n.fact hf).mpr hv)
  have hr' : n.verifiedReceipt = some receipt := hr
  obtain ⟨r, t, hst⟩ := hs.standing k n.fact receipt hf hr
  obtain ⟨a, hlatest, ha⟩ := latestAttempt_of_latest ho hst.latest
  have ht : t = a.toTry := Option.some.inj (hst.tried.symm.trans (ledger_try ha))
  subst ht
  have hnode : a.node = k := hst.own
  have hn' : db.node? a.node = some n := hnode ▸ hn
  have hpins := (pinsMatch_iff hn').mpr hst.current
  have hsnap : r.dependencySnapshot = dependencySnapshot db k := by
    rw [hst.pins, ← ledger_snapshot, ← hnode]
    exact hst.current.snapshot.symm
  refine ⟨r, a, ⟨?_, ?_, hst.revision, hst.contractHash, attempt_id ha, ?_, hst.candidate, hpins, ?_, ?_, ?_⟩⟩
  · rw [hr']
    exact hst.issued
  · rw [hk]
    exact hst.node
  · rw [hk]
    exact hlatest
  · rw [hk]
    exact hsnap
  · intro d hd
    rw [hk] at hd
    obtain ⟨key, hkey, rfl⟩ := id hd
    have hdep : (k.1, key) ∈ (ledger db).deps k := List.mem_map.mpr ⟨key, hkey, rfl⟩
    obtain ⟨f, hfact⟩ := Option.isSome_iff_exists.mp (hs.wired k _ hdep).2
    obtain ⟨m, hm, rfl⟩ := node_of_fact hfact
    have hver : m.status = .VERIFIED := hst.current.dep_verified (hnode.symm ▸ hdep) hfact
    have hrow := mem_dependencySnapshot hd hm
    rw [← hsnap] at hrow
    exact ⟨m, hm, hver, (hs.verified _ _ hfact).mpr hver, _, hrow, rfl, rfl⟩
  · intro c hc
    exact hst.met c.id (List.mem_map.mpr ⟨c, hc, rfl⟩)

/-- Being verified passes to every dependency, however far down. -/
theorem verified_of_transGen (ho : Orderly (ledger db)) (hs : Sound (ledger db)) (hn : db.node? k = some n)
    (hv : n.status = .VERIFIED) (h : Relation.TransGen (DependsOn db) k d) :
    ∃ m, db.node? d = some m ∧ m.status = .VERIFIED := by
  induction h with
  | single hkd =>
    obtain ⟨r, a, hin⟩ := inForce_of_sound ho hs hn hv
    obtain ⟨m, hm, hver, _⟩ := hin.deps _ (node_id hn ▸ hkd)
    exact ⟨m, hm, hver⟩
  | tail _ hcd ih =>
    obtain ⟨c, hc, hcv⟩ := ih
    obtain ⟨r, a, hin⟩ := inForce_of_sound ho hs hc hcv
    obtain ⟨m, hm, hver, _⟩ := hin.deps _ (node_id hc ▸ hcd)
    exact ⟨m, hm, hver⟩

/-- The verified-closure invariant, in every state the store can be in. -/
theorem verified_closure (host : Host) (ops : List Op) (k : NodeId) (n : Node)
    (hn : (after host ops).db.node? k = some n) :
    (n.verifiedReceipt.isSome ↔ n.status = .VERIFIED) ∧
    (n.status = .VERIFIED → (∃ r a, InForce (after host ops).db n r a) ∧
      ∀ d, Relation.TransGen (DependsOn (after host ops).db) k d →
        ∃ m r a, (after host ops).db.node? d = some m ∧ m.status = .VERIFIED ∧ InForce (after host ops).db m r a) := by
  have ho := after_orderly host ops
  have hs := after_sound host ops
  refine ⟨hs.verified k n.fact (ledger_fact hn), fun hv => ⟨inForce_of_sound ho hs hn hv, ?_⟩⟩
  intro d hd
  obtain ⟨m, hm, hmv⟩ := verified_of_transGen ho hs hn hv hd
  obtain ⟨r, a, hin⟩ := inForce_of_sound ho hs hm hmv
  exact ⟨m, r, a, hm, hmv, hin⟩

namespace Sample

def hexText (width n : Nat) : List Char :=
  (List.range width).reverse.map (fun i => Json.hexDigit (n / 16 ^ i % 16))

/-- A stand-in digest: 64 hexadecimal digits, distinct on the texts of the runs below. -/
def digest (bytes : List UInt8) : String :=
  String.ofList (List.replicate 56 '0' ++ hexText 8 (bytes.foldl (fun h c => (h * 31 + c.toNat) % 4294967291) 7))

def machine : Host where
  sha256 := fun s => digest s.toByteArray.data.toList
  sha256Bytes := digest
  onlineSeconds := 300
  staleSeconds := 1800
  waitGraceSeconds := 60
  driverIdentity := true

def owner : Caller := ⟨"owner", none, true⟩

def artifact : String := "00000000000000000000000000000000000000a1"

def report : String := "00000000000000000000000000000000000000000000000000000000000000e1"

def spec (nodeKey : String) (deps : List String) : NodeSpec :=
  ⟨nodeKey, "build it", [⟨"tests", "test", "the suite passes"⟩], deps, 0, none⟩

def project (specs : List NodeSpec) : List Op :=
  [.request (.createProject "p" "A project" none), .request (.addNodes "p" specs)]

def reserveRequest (nodeKey uid : String) : ReserveRequest where
  projectId := "p"
  nodeKey := nodeKey
  expectedRevision := 1
  workflow := some "flow"
  requestKey := uid
  instruction := ""
  external := none
  continueFrom := none
  relayDigest := none
  frozenPrerequisites := none
  baseSha := none
  relayHandoff := none
  claimId := none
  fence := none
  priorAccount := none
  design := none
  uid := uid
  claimNow := 1000000
  leaseNow := 1000000

def engine (uid status : String) : EngineAnswer where
  row := some ⟨"run-" ++ uid, "sg-" ++ uid, "flow", status, 1,
    "sha256:00000000000000000000000000000000000000000000000000000000000000d1", none, none⟩
  history := true
  audit := some ⟨0, 0, 0⟩

/-- Reserve, launch and bind an attempt of a SkillFlow run. -/
def started (caller : Caller) (nodeKey uid : String) : List Op :=
  [.request (.reserve caller "flow" (reserveRequest nodeKey uid)),
    .request (.claimLaunch caller ("attempt-" ++ uid) none none 1000000),
    .read (.bindRun ("attempt-" ++ uid) ("run-" ++ uid) (engine uid "running")), .commit 0 1000000]

def reconciled (uid status : String) (artifact : Option String) : List Op :=
  [.read (.reconcile ("attempt-" ++ uid) (engine uid status) artifact none), .commit 0 1000000]

def evidence (uid evidenceId artifact : String) (answer : Option EngineAnswer) : EvidenceRequest where
  attemptId := "attempt-" ++ uid
  evidenceId := evidenceId
  criterionId := "tests"
  verdict := .pass
  artifact := artifact
  reportRef := "reports/" ++ evidenceId
  reportSha256 := report
  reviewer := "reviewer"
  detail := ""
  reportBytes := none
  directorIdentity := none
  engine := answer

/-- One node from its reservation to its receipt. -/
def accepted (nodeKey uid : String) : List Op :=
  started owner nodeKey uid ++ reconciled uid "completed" (some artifact) ++
    [.request (.recordEvidence (evidence uid ("evidence-" ++ uid) artifact none)),
      .request (.verify "p" nodeKey 1 ("attempt-" ++ uid) "reviewer" false uid)]

def chain : List Op :=
  project [spec "a" [], spec "b" ["a"]] ++ accepted "a" "1" ++ accepted "b" "2"

end Sample

open Sample in
/-- Two nodes, one on the other, both accepted: the upper acceptance is in force,
and so is the one below it. -/
theorem verified_closure_chain : ∃ n, (after machine chain).db.node? ("p", "b") = some n ∧ n.verifiedReceipt.isSome ∧
    (∃ r a, InForce (after machine chain).db n r a) ∧
    ∃ m r a, (after machine chain).db.node? ("p", "a") = some m ∧ InForce (after machine chain).db m r a := by
  have ⟨hs, hd⟩ : ((after machine chain).db.node? ("p", "b")).map Node.status = some .VERIFIED ∧
      depsOf (after machine chain).db "p" "b" = ["a"] := by
    decide +kernel
  obtain ⟨n, hn, hv⟩ := Option.map_eq_some_iff.mp hs
  obtain ⟨hiff, hin⟩ := verified_closure machine chain ("p", "b") n hn
  obtain ⟨hforce, hdeps⟩ := hin hv
  have hdep : DependsOn (after machine chain).db ("p", "b") ("p", "a") := by
    refine ⟨"a", ?_, rfl⟩
    rw [hd]
    exact List.mem_singleton.mpr rfl
  obtain ⟨m, r, a, hm, _, hma⟩ := hdeps ("p", "a") (.single hdep)
  exact ⟨n, hn, hiff.mpr hv, hforce, m, r, a, hm, hma⟩

end AItelier.State
