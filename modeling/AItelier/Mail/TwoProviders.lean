import AItelier.Lib.JsonText
import AItelier.Mail.Refinement

namespace AItelier.Mail

open AItelier.Lib AItelier.State

variable {rt : Runtime} {supply : Supply} {n : Nat} {m m' : Mailbox} {mem : Memory} {c : Call}

section SelfTargeted

variable {r : SendRequest}

theorem ofOption_arranged (o : Option String) : (Json.ofOption o).arranged = Json.ofOption o := by
  cases o <;> rfl

theorem ofOption_injective {o o' : Option String} (h : Json.ofOption o = Json.ofOption o') : o = o' := by
  cases o <;> cases o' <;> simp_all [Json.ofOption]

theorem payload_distinct (r : SendRequest) : r.payload.Distinct := by
  have hleaf : ∀ o : Option String, (Json.ofOption o).Distinct := fun o => by cases o <;> trivial
  rw [SendRequest.payload]
  cases r.extended <;> simp [Json.Distinct, Json.DistinctFields, hleaf]

theorem payload_field {r r' : SendRequest} (h : canonical r.payload = canonical r'.payload)
    (name : String) (j j' : Json)
    (hj : ∃ fields, r.payload = .obj fields ∧ (name, j) ∈ fields)
    (hj' : ∃ fields, r'.payload = .obj fields ∧ (name, j') ∈ fields) : j'.arranged = j.arranged := by
  obtain ⟨fields, hr, hmem⟩ := hj
  obtain ⟨fields', hr', hmem'⟩ := hj'
  have hd := payload_distinct r
  have hd' := payload_distinct r'
  rw [hr] at h hd
  rw [hr'] at h hd'
  obtain ⟨g, hg, hname, hvalue⟩ := Json.fields_of_canonical hd hd' h hmem
  have hsame : g = (name, j') := List.inj_on_of_nodup_map hd'.1 hg hmem' hname
  rw [← hvalue, hsame]

theorem payload_ends {r r' : SendRequest} (h : canonical r.payload = canonical r'.payload) :
    r.senderProjectId = r'.senderProjectId ∧ r.targetProjectId = r'.targetProjectId := by
  constructor
  · have hfield := payload_field h "sender_project_id" (.str r.senderProjectId) (.str r'.senderProjectId)
      ⟨_, rfl, by simp⟩ ⟨_, rfl, by simp⟩
    exact (Json.str.inj hfield).symm
  · have hfield := payload_field h "target_project_id" (.ofOption r.targetProjectId)
      (.ofOption r'.targetProjectId) ⟨_, rfl, by simp⟩ ⟨_, rfl, by simp⟩
    rw [ofOption_arranged, ofOption_arranged] at hfield
    exact (ofOption_injective hfield).symm

/-- A refusal with a code of the v2 wire. -/
def Refused {α : Type} (x : Result α) : Prop := ∃ code text, x = .error (.message code text) ∧ code.v2 = true

theorem refused_of_related {α β : Type} {x : Result α} {y : Result β} (h : Related SameCode (fun _ _ => False) x y) :
    Refused x := by
  cases h with
  | ok h => exact h.elim
  | error h =>
    obtain ⟨code, text, _, rfl, -, hv⟩ := h
    exact ⟨code, text, rfl, hv⟩

theorem targeted_project {t : String} (h : r.destination = .ok (.targeted t)) : r.targetProjectId = some t := by
  unfold SendRequest.destination at h
  split at h
  · next _ ht _ =>
    cases h
    exact ht
  all_goals cases h

theorem target_targeted {t : String} {destination : Destination} (h : r.destination = .ok destination)
    (ht : r.targetProjectId = some t) : destination = .targeted t := by
  unfold SendRequest.destination at h
  rw [ht] at h
  split at h
  · next _ hs _ =>
    cases h
    exact congrArg Destination.targeted (Option.some.inj hs).symm
  · next hs _ => cases hs
  · next hs _ => cases hs
  · cases h

/-- The stored mailbox refuses a send targeted at its own sender before it looks at anything. -/
theorem selfTargeted_refused (hplain : r.Plain) (hself : r.destination = .ok (.targeted r.senderProjectId))
    (p : Provider) :
    Refused (sendDirectorMessage rt m p r) := by
  have hnone := (@validate_checked rt r hplain).imp (Q := fun _ _ => False) ?_
  · obtain ⟨code, text, hv, hwire⟩ := refused_of_related hnone
    unfold sendDirectorMessage
    rw [hv]
    have hsame := sameCode code hwire text text
    exact refused_of_related (Related.exposed (R := fun _ _ : Reply × Mailbox => False) hplain.schema (.error hsame))
  · rintro x y - hy ⟨rfl, -, hd⟩
    obtain ⟨z, -, hy⟩ := bind_ok.mp hy
    obtain ⟨_, hne, hy⟩ := bind_ok.mp hy
    rw [pure_ok] at hy
    rw [ensure_ok, hy] at hne
    exact hne (Except.ok.inj (hd.symm.trans hself))

/-- The model refuses it too: it is never recorded, so no record answers it. -/
theorem selfTargeted_refused_by_model (hh : Held supply n m) (hc : Corresponds m mem) (actor : String)
    (hself : r.destination = .ok (.targeted r.senderProjectId)) : Refused (mem.sendDirectorMessage rt actor r) := by
  apply refused_of_related (y := mem.sendDirectorMessage rt actor r)
  unfold Memory.sendDirectorMessage
  refine (validated r).bind ?_
  rintro ⟨r', destination⟩ _ ⟨rfl, hnormal, hd⟩
  obtain rfl : destination = .targeted r'.senderProjectId := by
    rw [hnormal.sender]
    exact Except.ok.inj (hd.symm.trans hself)
  have htarget : r'.targetProjectId = some r'.senderProjectId :=
    targeted_project (hnormal.sameDestination.trans hd)
  -- a record of its text would be one of a send to its own sender
  refine Related.bind (R := fun a b : Option Answer => a = b ∧ a = none) ?_ ?_
  · unfold Memory.recorded
    rw [hc.answers]
    cases hrow : recordOf m (actor, r'.senderProjectId, .send, r'.requestKey) with
    | none => exact .ok ⟨rfl, rfl⟩
    | some row =>
      obtain ⟨hmem, hop⟩ := recordOf_mem hrow
      obtain ⟨s, hs, hne⟩ := hh.sends row hmem hop
      refine Related.bind (R := fun _ _ => False)
        (Related.ensure (fun heq => hne ?_) (sameCode .idempotencyConflict rfl ..))
        (fun _ _ h => h.elim)
      rw [hs] at heq
      obtain ⟨h1, h2⟩ := payload_ends heq
      rw [h1, h2, htarget]
  · rintro _ _ ⟨rfl, rfl⟩
    refine Related.bind (R := fun _ _ => False) ?_ (fun _ _ h => h.elim)
    unfold Memory.sendNew Memory.project
    refine Related.bind (R := fun _ _ => True) (Related.ensure (fun _ => trivial) (sameCode .unknownProject rfl ..))
      (fun _ _ _ => ?_)
    refine Related.bind (R := fun _ _ => False) ?_ (fun _ _ h => h.elim)
    refine Related.bind (R := fun _ _ => False) (Related.ensure (fun h => h rfl) (sameInvalid ..)) (fun _ _ h => h.elim)

end SelfTargeted

section Calls

/-- A send whose target is its own sender's project. -/
def SendArgs.selfTargeted (a : SendArgs) : Bool :=
  match a.senderProjectId, a.targetProjectId, a.broadcast, a.replyToDeliveryId with
  | .str sender, .str target, .bool false, .null => decide (target = sender)
  | _, _, _, _ => false

/-- A cursor that no statement can be given. -/
def ListArgs.unbindable (a : ListArgs) : Bool := (int? a.after).any (fun i => decide (sqliteMax < i))

/-- An expected version that no payload can be written with. -/
def TransitionArgs.unwritable (a : TransitionArgs) : Bool := (int? a.expectedVersion).any (fun i => !writable i)

/-- The calls on which the providers part. -/
def Call.astray (c : Call) : Bool :=
  match c.action with
  | .send a => a.selfTargeted
  | .list a => a.unbindable
  | .acknowledge a | .resolve a => a.unwritable

/-- How the outcomes of a call agree: in full, but that a send to its own sender is
refused by each with its own code, and that the stored mailbox raises on an integer
beyond its bounds. -/
def Call.Agrees (c : Call) (x y : Outcome) : Prop :=
  match c.action with
  | .send a => if a.selfTargeted then (∃ code, x = .refused code) ∧ ∃ code, y = .refused code else x = y
  | .list a => x = y ∨ (a.unbindable = true ∧ x = .raised)
  | .acknowledge a | .resolve a => x = y ∨ (a.unwritable = true ∧ x = .raised)

/-- Both providers after `n` calls. -/
structure Paired (supply : Supply) (n : Nat) (m : Mailbox) (mem : Memory) : Prop where
  held : Held supply n m
  corresponds : Corresponds m mem

theorem Paired.later (h : Paired supply n m mem) : Paired supply (n + 1) m mem := ⟨h.held.later, h.corresponds⟩

/-- What one call keeps and answers. -/
structure CallAgrees (rt : Runtime) (supply : Supply) (n : Nat) (m : Mailbox) (mem : Memory) (c : Call) : Prop where
  outcome : c.Agrees (sqliteCall rt supply n m c).1 (memoryCall rt supply n mem c).1
  untouched : c.astray = true → (sqliteCall rt supply n m c).2 = m ∧ (memoryCall rt supply n mem c).2 = mem
  paired : Paired supply (n + 1) (sqliteCall rt supply n m c).2 (memoryCall rt supply n mem c).2

theorem settle_related {x : Result (Reply × Mailbox)} {y : Result (Reply × Memory)} {P : Mailbox → Memory → Prop}
    (h : Related SameCode (fun a b => a.1 = b.1 ∧ P a.2 b.2) x y) (hP : P m mem) :
    (settle m x).1 = (settle mem y).1 ∧ P (settle m x).2 (settle mem y).2 := by
  cases h with
  | ok h => exact ⟨congrArg Outcome.replied h.1, h.2⟩
  | error h => exact ⟨h.outcome, hP⟩

theorem settle_refused {σ : Type} {s : σ} {x : Result (Reply × σ)} (h : Refused x) :
    (∃ code, (settle s x).1 = .refused code) ∧ (settle s x).2 = s := by
  obtain ⟨code, text, rfl, -⟩ := h
  exact ⟨⟨code, rfl⟩, rfl⟩

theorem text?_some {v : Value} {s : String} (h : v.text? = some s) : v = .str s := by
  cases v <;> simp_all [Value.text?]

theorem bool?_some {v : Value} {b : Bool} (h : bool? v = some b) : v = .bool b := by
  cases v <;> simp_all [bool?]

theorem optionalText?_some {v : Value} {o : Option String} (h : optionalText? v = some o) :
    v = o.elim .null .str := by
  cases v <;> simp_all [optionalText?] <;> subst h <;> rfl

theorem SendArgs.read_plain {a : SendArgs} {r : SendRequest} (h : a.read supply n = some r) :
    r.Plain ∧ r.Drawn supply n ∧ (r.destination = .ok (.targeted r.senderProjectId) ↔ a.selfTargeted = true) := by
  simp only [SendArgs.read, Option.bind_eq_bind, Option.bind_eq_some_iff, Option.pure_def, Option.some.injEq] at h
  obtain ⟨sender, hsender, identity, -, key, -, subject, -, body, -, target, htarget, broadcast,
    hbroadcast, reply, hreply,
    mode, -, rfl⟩ := h
  refine ⟨⟨rfl, rfl, rfl⟩, ⟨rfl, fun _ => rfl⟩, ?_⟩
  rw [SendArgs.selfTargeted, text?_some hsender, optionalText?_some htarget, bool?_some hbroadcast,
    optionalText?_some hreply]
  cases broadcast <;> cases target <;> cases reply <;>
    simp [SendRequest.destination, pure, Except.pure, throw, throwThe, MonadExceptOf.throw]

section Step

variable (hp : Paired supply n m mem) (howner : c.provider.isOwner = false)
include hp howner

theorem send_agrees {a : SendArgs} (hc : c.action = .send a) : CallAgrees rt supply n m mem c := by
  cases hr : a.read supply n with
  | none =>
    have hs : sqliteCall rt supply n m c = (.refused .invalidRequest, m) := by simp only [sqliteCall, hc, hr]
    have hm : memoryCall rt supply n mem c = (.refused .invalidRequest, mem) := by simp only [memoryCall, hc, hr]
    refine ⟨?_, fun _ => by rw [hs, hm]; exact ⟨rfl, rfl⟩, by rw [hs, hm]; exact hp.later⟩
    rw [hs, hm, Call.Agrees, hc]
    dsimp only
    split
    · exact ⟨⟨_, rfl⟩, _, rfl⟩
    · rfl
  | some r =>
    obtain ⟨hplain, hdrawn, hself⟩ := SendArgs.read_plain hr
    have hs : sqliteCall rt supply n m c = settle m (sendDirectorMessage rt m c.provider r) := by
      simp only [sqliteCall, hc, hr]
    have hm : memoryCall rt supply n mem c = settle mem (mem.sendDirectorMessage rt c.actor r) := by
      simp only [memoryCall, hc, hr]
    by_cases hd : a.selfTargeted = true
    · obtain ⟨hcode, hkeep⟩ := @settle_refused _ m _ (@selfTargeted_refused rt m r hplain (hself.mpr hd) c.provider)
      obtain ⟨hcode', hkeep'⟩ := @settle_refused _ mem _
        (@selfTargeted_refused_by_model rt supply n m mem r hp.held hp.corresponds c.actor (hself.mpr hd))
      rw [← hs] at hcode hkeep
      rw [← hm] at hcode' hkeep'
      refine ⟨?_, fun _ => ⟨hkeep, hkeep'⟩, by rw [hkeep, hkeep']; exact hp.later⟩
      rw [Call.Agrees, hc]
      dsimp only
      rw [if_pos hd]
      exact ⟨hcode, hcode'⟩
    · have hrelated := (@send_related rt supply n m mem c r hp.held hp.corresponds howner hplain hdrawn
        (fun h => hd (hself.mp h))).imp (Q := fun a b => a.1 = b.1 ∧ Paired supply (n + 1) a.2 b.2) ?_
      · obtain ⟨hout, hpair⟩ := settle_related hrelated hp.later
        rw [← hs, ← hm] at hout hpair
        refine ⟨?_, fun h => ?_, hpair⟩
        · rw [Call.Agrees, hc]
          dsimp only
          rw [if_neg hd]
          exact hout
        · rw [Call.astray, hc] at h
          exact absurd h hd
      · rintro ⟨reply, m'⟩ ⟨_, mem'⟩ hx - ⟨hreply, hcorr, hleft⟩
        refine ⟨hreply, ?_, hcorr⟩
        rcases hleft with rfl | ⟨r', destination, hnormal, hdest, hsent⟩
        · exact hp.held.later
        · refine hp.held.sent (send_later hp.held.keyed hx).keyed ((send_progress hx).numbered hp.held.numbered)
            (hnormal.drawn hdrawn) (fun ht => hd (hself.mp ?_)) hsent
          have htargeted := target_targeted (hnormal.sameDestination.trans hdest) ht
          rw [hdest, htargeted, hnormal.sender]

theorem transition_agrees {a : TransitionArgs} {operation : Operation} (hop : operation ≠ .send)
    {r : TransitionRequest} (hr : a.read operation (supply.clock n) = some r) :
    ((sqliteTransition rt m c r).1 = (memoryTransition rt mem c r).1 ∨
        (a.unwritable = true ∧ (sqliteTransition rt m c r).1 = .raised)) ∧
      (a.unwritable = true → (sqliteTransition rt m c r).2 = m ∧ (memoryTransition rt mem c r).2 = mem) ∧
      Paired supply (n + 1) (sqliteTransition rt m c r).2 (memoryTransition rt mem c r).2 := by
  simp only [TransitionArgs.read, Option.bind_eq_bind, Option.bind_eq_some_iff, Option.pure_def,
    Option.some.injEq] at hr
  obtain ⟨project, -, delivery, -, version, hversion, key, -, rfl⟩ := hr
  have hun : a.unwritable = !writable version := by rw [TransitionArgs.unwritable, hversion, Option.any_some]
  have hrelated := @transition_related rt supply n m mem c
    ⟨operation, project, delivery, version, key, .v2, supply.clock n⟩ hp.held hp.corresponds howner rfl hop
  unfold sqliteTransition memoryTransition
  rw [hun]
  cases hw : writable version with
  | true =>
    simp only [if_true, Bool.not_true, Bool.false_eq_true, false_and, or_false, false_implies, true_and]
    refine settle_related (P := fun m' mem' => Paired supply (n + 1) m' mem') (hrelated.imp ?_) hp.later
    rintro ⟨reply, m'⟩ ⟨_, mem'⟩ - - ⟨hreply, hcorr, k, hleft⟩
    exact ⟨hreply, hp.held.moved hop (Call.provider_v2 howner) hleft, hcorr⟩
  | false =>
    simp only [Bool.false_eq_true, if_false, Bool.not_false, true_and]
    generalize transition rt m c.provider _ = x at hrelated ⊢
    generalize mem.transition rt c.actor _ = y at hrelated ⊢
    cases hrelated with
    | ok h => exact ⟨.inr rfl, fun _ => ⟨rfl, rfl⟩, hp.later⟩
    | error h =>
      obtain ⟨code, text, text', rfl, rfl, -⟩ := h
      cases code with
      | invalidRequest => exact ⟨.inl rfl, fun _ => ⟨rfl, rfl⟩, hp.later⟩
      | _ => exact ⟨.inr rfl, fun _ => ⟨rfl, rfl⟩, hp.later⟩

theorem list_agrees {a : ListArgs} (hc : c.action = .list a) : CallAgrees rt supply n m mem c := by
  cases hr : a.read with
  | none =>
    have hs : sqliteCall rt supply n m c = (.refused .invalidRequest, m) := by simp only [sqliteCall, hc, hr]
    have hm : memoryCall rt supply n mem c = (.refused .invalidRequest, mem) := by simp only [memoryCall, hc, hr]
    refine ⟨?_, fun _ => by rw [hs, hm]; exact ⟨rfl, rfl⟩, by rw [hs, hm]; exact hp.later⟩
    rw [hs, hm, Call.Agrees, hc]
    exact .inl rfl
  | some x =>
    obtain ⟨q, after⟩ := x
    have hs : sqliteCall rt supply n m c = (readPage after (listDirectorMessages rt m c.provider q after), m) := by
      simp only [sqliteCall, hc, hr]
    have hm : memoryCall rt supply n mem c = (modelPage (mem.listDirectorMessages rt q after), mem) := by
      simp only [memoryCall, hc, hr]
    refine ⟨?_, fun _ => by rw [hs, hm]; exact ⟨rfl, rfl⟩, by rw [hs, hm]; exact hp.later⟩
    rw [hs, hm, Call.Agrees, hc]
    simp only [ListArgs.read, Option.bind_eq_bind, Option.bind_eq_some_iff, Option.pure_def, Option.some.injEq,
      Prod.mk.injEq] at hr
    obtain ⟨project, -, i, hafter, limit, -, mode, -, statuses, -, rfl, rfl⟩ := hr
    have hrelated := @list_related rt supply n m mem c ⟨project, mode, statuses, false, none, .v2, limit⟩ hp.held
      hp.corresponds howner ⟨rfl, rfl, rfl⟩ i
    generalize listDirectorMessages rt m c.provider _ i = x at hrelated ⊢
    generalize mem.listDirectorMessages rt _ i = y at hrelated ⊢
    cases hrelated with
    | error h => exact .inl h.outcome
    | ok h =>
      subst h
      unfold readPage modelPage
      dsimp only
      by_cases hbound : i ≤ sqliteMax
      · exact .inl (if_pos hbound)
      · refine .inr ⟨?_, if_neg hbound⟩
        rw [ListArgs.unbindable, hafter, Option.any_some]
        exact decide_eq_true (Int.not_le.mp hbound)

theorem move_agrees {a : TransitionArgs} {operation : Operation} (hop : operation ≠ .send)
    (hs : sqliteCall rt supply n m c = match a.read operation (supply.clock n) with
      | some r => sqliteTransition rt m c r
      | none => (.refused .invalidRequest, m))
    (hm : memoryCall rt supply n mem c = match a.read operation (supply.clock n) with
      | some r => memoryTransition rt mem c r
      | none => (.refused .invalidRequest, mem))
    (hagrees : ∀ x y, c.Agrees x y ↔ x = y ∨ (a.unwritable = true ∧ x = .raised)) (hastray : c.astray = a.unwritable) :
    CallAgrees rt supply n m mem c := by
  cases hr : a.read operation (supply.clock n) with
  | none =>
    rw [hr] at hs hm
    refine ⟨(hagrees ..).mpr (.inl ?_), fun _ => ?_, ?_⟩
    · rw [hs, hm]
    · rw [hs, hm]
      exact ⟨rfl, rfl⟩
    · rw [hs, hm]
      exact hp.later
  | some r =>
    obtain ⟨hout, hkeep, hpair⟩ := @transition_agrees rt supply n m mem c hp howner a operation hop r hr
    rw [hr] at hs hm
    refine ⟨(hagrees ..).mpr ?_, fun h => ?_, ?_⟩
    · rw [hs, hm]
      exact hout
    · rw [hs, hm]
      exact hkeep (hastray ▸ h)
    · rw [hs, hm]
      exact hpair

/-- Every call of a v2 caller agrees, and leaves the providers paired. -/
theorem call_agrees : CallAgrees rt supply n m mem c := by
  cases hc : c.action with
  | send a => exact send_agrees hp howner hc
  | list a => exact list_agrees hp howner hc
  | acknowledge a =>
    refine @move_agrees rt supply n m mem c hp howner a .acknowledge nofun ?_ ?_ (fun _ _ => ?_) ?_
    · cases c
      cases hc
      rfl
    · cases c
      cases hc
      rfl
    · simp only [Call.Agrees, hc]
    · simp only [Call.astray, hc]
  | resolve a =>
    refine @move_agrees rt supply n m mem c hp howner a .resolve nofun ?_ ?_ (fun _ _ => ?_) ?_
    · cases c
      cases hc
      rfl
    · cases c
      cases hc
      rfl
    · simp only [Call.Agrees, hc]
    · simp only [Call.astray, hc]

end Step

theorem start_paired {projects : List String} (hprojects : projects.Nodup) (drivers : List Driver)
    (members : List Member) (events : List Event) :
    Paired supply 0 (Both.start projects drivers members events).sqlite
      (Both.start projects drivers members events).memory := by
  have hinbox : ∀ p, (Both.start projects drivers members events).memory.inbox p = [] := by
    intro p
    have hget := Entries.get_map (fun _ : String => ([] : List String)) (projects.map (fun p => (p, p))) p
    rw [List.map_map] at hget
    rw [Memory.inbox, show (Both.start projects drivers members events).memory.inboxes.get p = _ from hget]
    cases Entries.get (projects.map (fun p => (p, p))) p <;> rfl
  refine ⟨⟨hprojects, ⟨List.nodup_nil, List.nodup_nil, nofun, nofun⟩, ?_, nofun, nofun, nofun, nofun⟩,
    ⟨⟨fun _ => rfl, hinbox⟩, rfl, fun _ => rfl, fun p => ?_, fun _ => rfl⟩⟩
  · intro p
    exact ⟨rfl, rfl⟩
  · rw [hinbox]
    rfl

/-- What a run does to both providers. -/
theorem run_paired (rt : Runtime) (supply : Supply) (calls : List Call)
    (howner : ∀ c ∈ calls, c.provider.isOwner = false) (s : Both) (hp : Paired supply s.calls s.sqlite s.memory) :
    Paired supply (run (Both.next rt supply) s calls).calls (run (Both.next rt supply) s calls).sqlite
      (run (Both.next rt supply) s calls).memory := by
  induction calls generalizing s with
  | nil => exact hp
  | cons c calls ih =>
    refine ih (fun d hd => howner d (List.mem_cons_of_mem c hd)) _ ?_
    exact (call_agrees hp (howner c List.mem_cons_self)).paired

/-- Every run of v2 calls by callers other than the owner: the stored mailbox and the
reference model correspond after every step and every call agrees. -/
theorem mailbox_refines_model (rt : Runtime) (supply : Supply) (projects : List String) (drivers : List Driver)
    (members : List Member) (events : List Event) (hprojects : projects.Nodup) (past : List Call) (c : Call)
    (howner : ∀ x ∈ past ++ [c], x.provider.isOwner = false) :
    let s := run (Both.next rt supply) (Both.start projects drivers members events) past
    Corresponds s.sqlite s.memory ∧ Corresponds (s.next rt supply c).sqlite (s.next rt supply c).memory ∧
      c.Agrees (sqliteCall rt supply s.calls s.sqlite c).1 (memoryCall rt supply s.calls s.memory c).1 ∧
      (c.astray = true → (s.next rt supply c).sqlite = s.sqlite ∧ (s.next rt supply c).memory = s.memory) := by
  have hp := run_paired rt supply past (fun x hx => howner x (List.mem_append_left _ hx))
    (Both.start projects drivers members events) (start_paired hprojects drivers members events)
  have hcall := @call_agrees rt _ _ _ _ c hp (howner c (by simp))
  exact ⟨hp.corresponds, hcall.paired.corresponds, hcall.outcome, hcall.untouched⟩

/-- Ids that count the call and the draw. -/
def counted : Supply where
  id := fun a b => String.ofList (List.replicate a 'a' ++ '-' :: List.replicate b 'b')
  clock := fun n => n
  distinct := by
    intro a b c d h
    have hlist : List.replicate a 'a' ++ '-' :: List.replicate b 'b' =
        List.replicate c 'a' ++ '-' :: List.replicate d 'b' := by
      rw [← String.toList_ofList (l := List.replicate a 'a' ++ _), h, String.toList_ofList]
    have ha := congrArg (List.count 'a') hlist
    have hb := congrArg (List.count 'b') hlist
    simp only [List.count_append, List.count_cons, List.count_replicate] at ha hb
    simp at ha hb
    exact ⟨ha, hb⟩
  nonempty := by
    intro a b h
    have hlist := congrArg String.toList h
    rw [String.toList_ofList] at hlist
    simp at hlist

def sendOf (sender target : String) : Action :=
  .send ⟨.str sender, .str "director", .str "k", .str "subject", .str "", .str target, .bool false, .null,
    .str "transient"⟩

def acknowledgeOf (project delivery : String) (version : Int) : Action :=
  .acknowledge ⟨.str project, .str delivery, .int version, .str "k"⟩

/-- Two projects before any mail. -/
def twoProjects : Both := Both.start ["a", "b"] [] [] []

/-- A message to `b` and its acknowledgement there. -/
theorem mailbox_refines_model_acknowledged :
    let s := run (Both.next plain counted) twoProjects [⟨"director:a", sendOf "a" "b"⟩]
    let c : Call := ⟨"director:b", acknowledgeOf "b" "-b" 1⟩
    (sqliteCall plain counted s.calls s.sqlite c).1 = (memoryCall plain counted s.calls s.memory c).1 ∧
      Corresponds (s.next plain counted c).sqlite (s.next plain counted c).memory := by
  have h := mailbox_refines_model plain counted ["a", "b"] [] [] [] (by decide) [⟨"director:a", sendOf "a" "b"⟩]
    ⟨"director:b", acknowledgeOf "b" "-b" 1⟩ (by decide)
  refine ⟨h.2.2.1.resolve_right (fun hun => ?_), h.2.1⟩
  exact absurd hun.1 (by decide +kernel)

/-- The providers part on the owner's send to a project without members, on a send by
a project that does not exist to itself, on a cursor beyond 64 bits and on an
expected version of more than 4300 digits. -/
theorem providers_differ :
    (sqliteCall plain counted 0 twoProjects.sqlite ⟨"owner:o", sendOf "a" "b"⟩).1 = .refused .noRecipients ∧
    (memoryCall plain counted 0 twoProjects.memory ⟨"owner:o", sendOf "a" "b"⟩).1 ≠ .refused .noRecipients ∧
    (sqliteCall plain counted 0 twoProjects.sqlite ⟨"director:x", sendOf "x" "x"⟩).1 = .refused .invalidRequest ∧
    (memoryCall plain counted 0 twoProjects.memory ⟨"director:x", sendOf "x" "x"⟩).1 = .refused .unknownProject ∧
    (sqliteCall plain counted 0 twoProjects.sqlite
      ⟨"director:a", .list ⟨.str "a", .int (2 ^ 63), .int 1, .null, .null⟩⟩).1 = .raised ∧
    (memoryCall plain counted 0 twoProjects.memory
      ⟨"director:a", .list ⟨.str "a", .int (2 ^ 63), .int 1, .null, .null⟩⟩).1 = .listed ⟨"a", [], 0, false, 2 ^ 63⟩ ∧
    (sqliteCall plain counted 0 twoProjects.sqlite ⟨"director:a", acknowledgeOf "a" "d" (10 ^ 4300)⟩).1 = .raised ∧
    (memoryCall plain counted 0 twoProjects.memory ⟨"director:a", acknowledgeOf "a" "d" (10 ^ 4300)⟩).1 =
      .refused .unknownDelivery := by
  decide +kernel

end Calls

end AItelier.Mail
