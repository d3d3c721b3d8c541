import AItelier.Lib.Entries

namespace AItelier.Router

open AItelier.Lib

/-- What the registry declares of one provider. -/
structure Provider where
  apiKeyEnv : Option String
  maxInputTokens : Option Int
  deriving DecidableEq

/-- What stays the same for one gateway. Without a readable registry there is nothing to check
against. -/
structure Setup where
  candidates : List String
  provs : Option (Entries String Provider)
  secret : String → Option String
  enableThinking : Bool
  resolved : candidates ≠ []

/-- `_failovers` is kept by the names of the endpoints that were left. -/
structure Gateway where
  candidateIx : Nat
  activeModel : String
  failovers : List String
  returnAfter : Option Nat
  contextFailedOver : Bool
  suppressThinking : Bool
  burstHits : Nat
  deriving DecidableEq

/-- `_ENDPOINT_COOLDOWN`, which every gateway of the process writes. -/
abbrev Cooldown := Entries String Nat

inductive Kind
  | rateLimit
  | outage
  | contextWindow
  | request
  deriving DecidableEq

/-- An error as far as the gateway tells errors apart. -/
structure Failure where
  kind : Kind
  quotaExhausted : Bool
  spentCredit : Bool
  spendLimit : Bool
  resetAt : Option Nat
  deriving DecidableEq

inductive Answer
  | response (promptTokens : Option Nat)
  | error (f : Failure)
  deriving DecidableEq

/-- How one attempt ends, and what the gateway finds then. -/
structure Event where
  answer : Answer
  now : Nat
  cooldown : Cooldown
  extraBody : Bool
  maxOutputTokens : Nat
  deriving DecidableEq

inductive Raised
  | exhausted
  | overflow
  | burst
  | request
  deriving DecidableEq

inductive Handled
  | again (g : Gateway)
  | raised (why : Raised) (g : Gateway)
  | answered (g : Gateway)
  deriving DecidableEq

def Handled.gateway : Handled → Gateway
  | again g => g
  | raised _ g => g
  | answered g => g

/-- `_COOLDOWN_MAX_S`. -/
def cooldownMax : Nat := 6 * 3600

/-- `_COOLDOWN_FALLBACK_S`. -/
def cooldownFallback : Nat := 300

/-- `_RETURN_PROBE_EVERY_S`. -/
def returnProbeEvery : Nat := 600

/-- `_BURST_TOLERANCE`. -/
def burstTolerance : Nat := 2

/-- `c.split("/", 1)[0]`. -/
def providerOf (c : String) : String := String.ofList (c.toList.takeWhile (fun x => decide (x ≠ '/')))

/-- `_endpoint_available`. -/
def endpointAvailable (cooldown : Cooldown) (now : Nat) (name : String) : Bool :=
  (Entries.get cooldown name).getD 0 ≤ now

/-- `_note_endpoint_spent`. -/
def noteEndpointSpent (cooldown : Cooldown) (now : Nat) (name : String) (f : Failure) : Cooldown :=
  let hold := if f.spentCredit then cooldownMax else cooldownFallback
  let reopens := min (f.resetAt.getD (now + hold)) (now + cooldownMax)
  if reopens ≤ now then cooldown
  else Entries.set cooldown name (max ((Entries.get cooldown name).getD 0) reopens)

/-- `_endpoint_window`. -/
def endpointWindow (concrete : String) (provs : Entries String Provider) : Option Int :=
  match Entries.get provs (providerOf concrete) with
  | some p => if p.maxInputTokens = some 0 then none else p.maxInputTokens
  | none => none

namespace Setup

/-- Whether the provider declares no key, or one that has a value. -/
def keyed (u : Setup) (p : Provider) : Bool :=
  match p.apiKeyEnv with
  | some name => name = "" || ((u.secret name).getD "" != "")
  | none => true

/-- Registered and keyed. -/
def usable (u : Setup) (c : String) : Bool :=
  match u.provs with
  | some provs =>
    match Entries.get provs (providerOf c) with
    | some p => u.keyed p
    | none => false
  | none => true

/-- The loop of `_next_usable`. -/
def usableFrom (u : Setup) (available : String → Bool) : Nat → Option Nat → List String → Option Nat
  | _, firstKeyed, [] => firstKeyed
  | i, firstKeyed, c :: rest =>
    if u.usable c then
      if available c then some i else usableFrom u available (i + 1) (firstKeyed.or (some i)) rest
    else usableFrom u available (i + 1) firstKeyed rest

/-- `_next_usable`. -/
def nextUsable (u : Setup) (available : String → Bool) (start : Nat) : Nat :=
  (u.usableFrom available start none (u.candidates.drop start)).getD start

/-- The loop of `_failover` over endpoints that have failed before. -/
def skipTried (u : Setup) (available : String → Bool) (tried : List String) : Nat → Nat → Nat
  | 0, nxt => nxt
  | fuel + 1, nxt =>
    match u.candidates[nxt]? with
    | some c => if c ∈ tried then skipTried u available tried fuel (u.nextUsable available (nxt + 1)) else nxt
    | none => nxt

end Setup

/-- `_bind`. -/
def Gateway.bind (g : Gateway) (i : Nat) (concreteModel : String) : Gateway :=
  { g with candidateIx := i, activeModel := concreteModel, burstHits := 0 }

/-- A gateway as `__init__` leaves it. -/
def fresh (u : Setup) (now : Nat) (cooldown : Cooldown) : Gateway :=
  let i := u.nextUsable (endpointAvailable cooldown now) 0
  { candidateIx := i
    activeModel := (u.candidates[i]?).getD ""
    failovers := []
    returnAfter := none
    contextFailedOver := false
    suppressThinking := true
    burstHits := 0 }

/-- The rest of `_failover`, once the endpoint is left. -/
def advance (u : Setup) (available : String → Bool) (now : Nat) (g : Gateway) : Handled :=
  let nxt := u.skipTried available (g.activeModel :: g.failovers) u.candidates.length
    (u.nextUsable available (g.candidateIx + 1))
  if nxt ≤ g.candidateIx then .raised .exhausted g
  else
    match u.candidates[nxt]? with
    | some c =>
      let left := { g with failovers := g.failovers ++ [g.activeModel] }
      .again { left.bind nxt c with returnAfter := some (now + returnProbeEvery) }
    | none => .raised .exhausted g

/-- `_failover`. -/
def failover (u : Setup) (e : Event) (f : Failure) (g : Gateway) : Handled :=
  let burst := f.kind = .rateLimit ∧ f.quotaExhausted = false
  let hit := if burst then { g with burstHits := g.burstHits + 1 } else g
  if burst ∧ hit.burstHits < burstTolerance then .raised .burst hit
  else
    let cooldown :=
      if f.quotaExhausted || f.spentCredit then noteEndpointSpent e.cooldown e.now g.activeModel f else e.cooldown
    advance u (endpointAvailable cooldown e.now) e.now hit

/-- Both windows are declared, and the second is no larger. -/
def noLarger (here w : Option Int) : Bool :=
  match here, w with
  | some here, some w => w ≤ here
  | _, _ => false

/-- The loop of `_failover_context`. -/
def contextFrom (provs : Entries String Provider) (here : Option Int) : Nat → List String → Option (Nat × String)
  | _, [] => none
  | i, c :: rest =>
    if noLarger here (endpointWindow c provs) then contextFrom provs here (i + 1) rest
    else if here = none then none
    else some (i, c)

/-- `_failover_context`. -/
def failoverContext (u : Setup) (g : Gateway) : Option Gateway :=
  match u.provs with
  | some provs =>
    match contextFrom provs (endpointWindow g.activeModel provs) (g.candidateIx + 1)
      (u.candidates.drop (g.candidateIx + 1)) with
    | some (i, nxt) =>
      let g := { g with failovers := g.failovers ++ [g.activeModel] }
      some { g.bind i nxt with contextFailedOver := true }
    | none => none
  | none => none

/-- Whether what is left of the window is less than the output may take. -/
def squeezed (u : Setup) (g : Gateway) (promptTokens : Option Nat) (maxOutputTokens : Nat) : Bool :=
  match promptTokens, u.provs with
  | some tokens, some provs =>
    match endpointWindow g.activeModel provs with
    | some window => tokens ≠ 0 ∧ maxOutputTokens ≠ 0 ∧ window - tokens < maxOutputTokens
    | none => false
  | _, _ => false

/-- `_rebind_if_out_of_headroom`. -/
def rebindIfOutOfHeadroom (u : Setup) (promptTokens : Option Nat) (maxOutputTokens : Nat) (g : Gateway) : Gateway :=
  if squeezed u g promptTokens maxOutputTokens then (failoverContext u g).getD g else g

/-- What `_complete_prebuilt` does with the end of one attempt. -/
def handle (u : Setup) (g : Gateway) (e : Event) : Handled :=
  match e.answer with
  | .response promptTokens =>
    .answered { rebindIfOutOfHeadroom u promptTokens e.maxOutputTokens g with burstHits := 0 }
  | .error f =>
    match f.kind with
    | .rateLimit => failover u e f g
    | .outage => failover u e f g
    | .contextWindow =>
      match failoverContext u g with
      | some g => .again g
      | none => .raised .overflow g
    | .request =>
      if f.spentCredit || f.spendLimit then failover u e f g
      -- The bad parameter may be one that the gateway put there itself.
      else if g.suppressThinking ∧ u.enableThinking = false ∧
        e.extraBody then .again { g with suppressThinking := false }
      else .raised .request g

/-- The gateway at each attempt of one call of `_complete_prebuilt`. -/
def attempts (u : Setup) (g : Gateway) : List Event → List Gateway
  | [] => [g]
  | e :: rest =>
    match handle u g e with
    | .again g' => g :: attempts u g' rest
    | _ => [g]

/-- How the call stands after its events. -/
def completePrebuilt (u : Setup) (g : Gateway) : List Event → Handled
  | [] => .again g
  | e :: rest =>
    match handle u g e with
    | .again g' => completePrebuilt u g' rest
    | h => h

/-- The rest of the events go to the gateway that an event leaves, where it leaves one. -/
theorem attempts_cons (u : Setup) (g : Gateway) (e : Event) (rest : List Event) :
    (∃ g', handle u g e = .again g' ∧ attempts u g (e :: rest) = g :: attempts u g' rest ∧
      completePrebuilt u g (e :: rest) = completePrebuilt u g' rest) ∨
    ((∀ g', handle u g e ≠ .again g') ∧ attempts u g (e :: rest) = [g] ∧
      completePrebuilt u g (e :: rest) = handle u g e) := by
  cases hhandled : handle u g e with
  | again g' => exact .inl ⟨g', rfl, by rw [attempts, hhandled], by rw [completePrebuilt, hhandled]⟩
  | answered g' => exact .inr ⟨nofun, by rw [attempts, hhandled], by rw [completePrebuilt, hhandled]⟩
  | raised why g' => exact .inr ⟨nofun, by rw [attempts, hhandled], by rw [completePrebuilt, hhandled]⟩

/-- `return_to_earlier`. -/
def returnToEarlier (u : Setup) (now : Nat) (cooldown : Cooldown) (g : Gateway) : Gateway :=
  match g.returnAfter with
  | some due =>
    if g.candidateIx = 0 ∨ g.contextFailedOver ∨ now < due then g
    else
      let g := { g with returnAfter := some (now + returnProbeEvery) }
      let available := endpointAvailable cooldown now
      let i := u.nextUsable available 0
      match u.candidates[i]? with
      | some c =>
        if g.candidateIx ≤ i ∨ available c = false then g
        else
          { ({ g with failovers := [] } : Gateway).bind i c with returnAfter := if i = 0 then none else g.returnAfter }
      | none => g
  | none => g

end AItelier.Router
