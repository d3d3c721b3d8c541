import AItelier.Deployment.Store
import AItelier.Lib.CanonicalText

namespace AItelier.Deployment

open AItelier.Lib

variable {β : Type} {host : Host β} {j e : Dict} {es : List Value} {ev prior : Value} {n : Nat}

def events (j : Dict) : List Value := itemsOf (j.get "events")

/-- The part of the loader that looks at the journal alone. -/
structure Valid (host : Host β) (j : Dict) : Prop where
  formed : validateJournal host (.obj j) = none
  current : isVersion 2 (j.get "version") = true
  chained : chainBroken host j = false

variable {v : Value}

theorem isOneOf_iff {names : List String} : isOneOf names v = true ↔ ∃ s ∈ names, v = .str s := by
  cases v <;> simp [isOneOf]

theorem isBool_iff {b : Bool} : isBool b v = true ↔ v = .bool b := by
  cases v <;> simp [isBool]

theorem isHexText_iff {k : Nat} : State.isHexText k v = true ↔ ∃ s, v = .str s ∧ State.isHexOf k s = true := by
  cases v <;> simp [State.isHexText]

theorem isObject_iff : isObject v = true ↔ ∃ d, v = .obj d := by
  cases v <;> simp [isObject]

theorem isNull_iff : v.isNull = true ↔ v = .null := by
  cases v <;> simp [Value.isNull]

theorem isTrue_iff : v.isTrue = true ↔ v = .bool true := by
  cases v <;> simp [Value.isTrue]

theorem field_obj (d : Dict) (name : String) : field (.obj d) name = d.get name := rfl

/-- A well formed journal: its events, each behind the one before, and its `latest`. -/
structure Formed (host : Host β) (j : Dict) : Prop where
  list : isList (j.get "events") = true
  sound : eventsFault host (events j) = none
  latest : latestFault host j (events j) = none

theorem validate_none : validateJournal host (.obj j) = none ↔
    (isVersion 1 (j.get "version") = true ∨ isVersion 2 (j.get "version") = true) ∧ Formed host j := by
  rw [validateJournal, firstOf_cons_none, firstOf_cons_none, firstOf_cons_none, refuse_none]
  change ((!(isVersion 1 (j.get "version") || isVersion 2 (j.get "version")) || !isList (j.get "events")) = false ∧
    eventsFault host (events j) = none ∧ latestFault host j (events j) = none ∧ _) ↔ _
  constructor
  · rintro ⟨hfirst, hsound, hlatest, _⟩
    rw [Bool.or_eq_false_iff, Bool.not_eq_false', Bool.not_eq_false', Bool.or_eq_true] at hfirst
    exact ⟨hfirst.1, hfirst.2, hsound, hlatest⟩
  · rintro ⟨hversion, hformed⟩
    refine ⟨?_, hformed.sound, hformed.latest, rfl⟩
    rw [hformed.list, (Bool.or_eq_true _ _).mpr hversion]
    rfl

theorem Valid.sound (h : Valid host j) : Formed host j := (validate_none.mp h.formed).2

theorem brokenOrder_append (h : n < es.length) (rest : List Value) :
    brokenOrder (es ++ rest) n ev = brokenOrder es n ev := by
  rw [brokenOrder, brokenOrder, List.getElem?_append_left (by omega)]

theorem transitionFault_append (h : n < es.length) (rest : List Value) :
    transitionFault host (es ++ rest) n ev = transitionFault host es n ev := by
  rw [transitionFault, transitionFault, List.getElem?_append_left (by omega)]

theorem eventFault_append (h : n < es.length) (rest : List Value) :
    eventFault host (es ++ rest) n ev = eventFault host es n ev := by
  rw [eventFault, eventFault, brokenOrder_append h, transitionFault_append h,
    List.take_append_of_le_length (Nat.le_of_lt h)]

theorem eventsFault_iff : eventsFault host es = none ↔
    ∀ n ev, es[n]? = some ev → eventFault host es n ev = none := by
  rw [eventsFault, List.findSome?_eq_none_iff]
  constructor
  · intro h n ev hev
    exact h (ev, n) (List.mk_mem_zipIdx_iff_getElem?.mpr hev)
  · intro h p hp
    exact h p.2 p.1 (List.mk_mem_zipIdx_iff_getElem?.mp hp)

theorem eventsFault_append : eventsFault host (es ++ [ev]) = none ↔
    eventsFault host es = none ∧ eventFault host (es ++ [ev]) es.length ev = none := by
  rw [eventsFault_iff, eventsFault_iff]
  constructor
  · intro h
    refine ⟨fun n w hw => ?_, h es.length ev (by rw [List.getElem?_append_right (Nat.le_refl _)]; simp)⟩
    have hlt : n < es.length := (List.getElem?_eq_some_iff.mp hw).1
    rw [← eventFault_append hlt [ev]]
    exact h n w (by rw [List.getElem?_append_left hlt]; exact hw)
  · rintro ⟨h, hlast⟩ n w hw
    by_cases hlt : n < es.length
    · rw [eventFault_append hlt]
      exact h n w (by rwa [List.getElem?_append_left hlt] at hw)
    · have hlen := (List.getElem?_eq_some_iff.mp hw).1
      rw [List.length_append, List.length_singleton] at hlen
      have hn : n = es.length := by omega
      subst hn
      rw [List.getElem?_append_right (Nat.le_refl _), Nat.sub_self] at hw
      cases hw
      exact hlast

/-- What the loader has found of an event. -/
structure Checked (host : Host β) (es : List Value) (n : Nat) (ev : Value) : Prop where
  object : isObject ev = true
  identity : State.isHexText 32 (field ev "event_id") = true
  fresh : (es.take n).any (fun e => (field e "event_id").pyEq (field ev "event_id")) = false
  ordered : brokenOrder es n ev = false
  graded : (n == 0 && legacyJournalGenesis ev) = true ∨
    statusFault host n ev = none ∧ transitionFault host es n ev = none

theorem eventFault_none : eventFault host es n ev = none ↔ Checked host es n ev := by
  rw [eventFault]
  constructor
  · intro h
    simp only [firstOf_cons_none, refuse_none, Bool.not_eq_false'] at h
    obtain ⟨hobject, hidentity, hfresh, hordered, hgraded, -⟩ := h
    refine ⟨hobject, hidentity, hfresh, hordered, ?_⟩
    by_cases hg : (n == 0 && legacyJournalGenesis ev) = true
    · exact .inl hg
    · rw [if_neg hg] at hgraded
      simp only [firstOf_cons_none] at hgraded
      exact .inr ⟨hgraded.1, hgraded.2.1⟩
  · rintro ⟨hobject, hidentity, hfresh, hordered, hgraded⟩
    simp only [firstOf_cons_none, refuse_none, Bool.not_eq_false']
    refine ⟨hobject, hidentity, hfresh, hordered, ?_, rfl⟩
    by_cases hg : (n == 0 && legacyJournalGenesis ev) = true
    · rw [if_pos hg]
    · rw [if_neg hg]
      have hboth := hgraded.resolve_left hg
      simp only [firstOf_cons_none]
      exact ⟨hboth.1, hboth.2, rfl⟩

/-- The checks of a status, by its flags. -/
structure Graded (n : Nat) (ev : Value) (pending usable : Bool) : Prop where
  states : statesOf (field ev "status") = some (pending, usable)
  pending : field ev "pending" = .bool pending
  usable : field ev "usable" = .bool usable
  action : isOneOf DEPLOY_ACTIONS (field ev "action") = true
  digest : State.isHexText 64 (field ev "inventory_digest") = true ∨
    (field ev "status" = .str "aborted" ∧ field ev "inventory_digest" = .null)
  replayed : hasField ev "replayed" = true → field ev "replayed" = .bool false
  genesis : n = 0 → isOneOf ["authorized", "overridden", "aborted"] (field ev "status") = true

theorem statusFault_none : statusFault host n ev = none ↔ ∃ pending usable, Graded n ev pending usable := by
  rw [statusFault]
  cases hs : statesOf (field ev "status") with
  | none =>
    constructor
    · intro h
      cases h
    · rintro ⟨p, u, h⟩
      rw [h.states] at hs
      cases hs
  | some flags =>
    obtain ⟨p, u⟩ := flags
    dsimp only
    constructor
    · intro h
      simp only [firstOf_cons_none, refuse_none] at h
      obtain ⟨hflags, haction, hdigest, hreplayed, hgenesis, -⟩ := h
      have hboth : isBool p (field ev "pending") = true ∧ isBool u (field ev "usable") = true := by simpa using hflags
      refine ⟨p, u, hs, isBool_iff.mp hboth.1, isBool_iff.mp hboth.2, by simpa using haction, ?_, ?_, ?_⟩
      · by_cases hhex : State.isHexText 64 (field ev "inventory_digest") = true
        · exact .inl hhex
        · have hnull : (field ev "status").isText "aborted" = true ∧ (field ev "inventory_digest").isNull = true := by
            simpa [hhex] using hdigest
          exact .inr ⟨Value.isText_iff.mp hnull.1, isNull_iff.mp hnull.2⟩
      · intro hhas
        exact isBool_iff.mp (by simpa [hhas] using hreplayed)
      · rintro rfl
        simpa using hgenesis
    · rintro ⟨p', u', h⟩
      have hflags : p' = p ∧ u' = u := by
        have hpair := h.states.symm.trans hs
        exact ⟨(Prod.mk.inj (Option.some.inj hpair)).1, (Prod.mk.inj (Option.some.inj hpair)).2⟩
      obtain ⟨rfl, rfl⟩ := hflags
      simp only [firstOf_cons_none, refuse_none]
      refine ⟨?_, by simp [h.action], ?_, ?_, ?_, rfl⟩
      · rw [h.pending, h.usable]
        simp [isBool]
      · rcases h.digest with hhex | ⟨hs, hnull⟩
        · simp [hhex]
        · simp [hs, hnull, Value.isNull]
      · by_cases hhas : hasField ev "replayed" = true
        · simp [h.replayed hhas, isBool]
        · simp [hhas]
      · by_cases hn : n = 0
        · simp [h.genesis hn]
        · simp [hn]

/-- What ties an event to its predecessor. -/
structure Tied (prior ev : Value) : Prop where
  successor : isOneOf (successorsOf (field prior "status")) (field ev "status") = true
  same : isOneOf ["authorized", "overridden"] (field prior "status") = true →
    (field ev "action").pyEq (field prior "action") = true ∧
      (field ev "inventory_digest").pyEq (field prior "inventory_digest") = true
  reconciled : field ev "status" = .str "reconciled_quiescent" → (field ev "action").pyEq (field prior "action") = true

theorem transitionFault_none {m : Nat} (hprior : es[m]? = some prior) :
    transitionFault host es (m + 1) ev = none ↔ Tied prior ev := by
  rw [transitionFault, if_neg (Nat.succ_ne_zero m), Nat.add_sub_cancel, hprior]
  dsimp only
  constructor
  · intro h
    simp only [firstOf_cons_none, refuse_none] at h
    obtain ⟨hsucc, hsame, hrec, -⟩ := h
    refine ⟨by simpa using hsucc, fun hp => ?_, fun hs => ?_⟩
    · simpa [hp] using hsame
    · simpa [hs] using hrec
  · intro h
    simp only [firstOf_cons_none, refuse_none]
    refine ⟨by simp [h.successor], ?_, ?_, rfl⟩
    · by_cases hp : isOneOf ["authorized", "overridden"] (field prior "status") = true
      · simp [(h.same hp).1, (h.same hp).2]
      · simp [hp]
    · by_cases hs : (field ev "status").isText "reconciled_quiescent" = true
      · simp [h.reconciled (Value.isText_iff.mp hs)]
      · simp [hs]

/-- An event that may stand behind the last of the journal, before its identity, time
and predecessor are put in. -/
structure Fits (es : List Value) (e : Dict) : Prop where
  graded : ∃ pending usable, Graded es.length (.obj e) pending usable
  tied : ∀ prior, es.getLast? = some prior → Tied prior (.obj e)
  first : e.find "prior_event_id" = none

theorem get_completed {name : String} (h1 : name ≠ "event_id") (h2 : name ≠ "at") (h3 : name ≠ "prior_event_id")
    (hfirst : e.find "prior_event_id" = none) (eventId now : String) :
    (completed j e eventId now).find name = e.find name := by
  have hput : ((e.put "event_id" (.str eventId)).put "at" (.str now)).find name = e.find name := by
    rw [Dict.find_put_other h2, Dict.find_put_other h1]
  rw [completed]
  split
  · rw [Dict.find_put_other h3, hput]
  · rw [Dict.pop_absent, hput]
    rw [Dict.find_put_other (by decide), Dict.find_put_other (by decide), hfirst]

theorem completed_id (hfirst : e.find "prior_event_id" = none) (eventId now : String) :
    (completed j e eventId now).get "event_id" = .str eventId := by
  have hput : ((e.put "event_id" (.str eventId)).put "at" (.str now)).get "event_id" = .str eventId := by
    rw [Dict.get_put_other (by decide), Dict.get_put_self]
  rw [completed]
  split
  · rw [Dict.get_put_other (by decide), hput]
  · rw [Dict.pop_absent, hput]
    rw [Dict.find_put_other (by decide), Dict.find_put_other (by decide), hfirst]

theorem completed_prior (hfirst : e.find "prior_event_id" = none) (eventId now : String) :
    (completed j e eventId now).find "prior_event_id" =
      (events j).getLast?.map (fun last => field last "event_id") := by
  have hput : ((e.put "event_id" (.str eventId)).put "at" (.str now)).find "prior_event_id" = none := by
    rw [Dict.find_put_other (by decide), Dict.find_put_other (by decide), hfirst]
  rw [completed]
  split
  · next last hlast => rw [Dict.find_put_self, show (events j).getLast? = some last from hlast]; rfl
  · next hlast => rw [Dict.pop_absent hput, hput, show (events j).getLast? = none from hlast]; rfl

theorem graded_congr {ev ev' : Value} {pending usable : Bool} (h : Graded n ev pending usable)
    (hfield : ∀ name ∈ ["status", "pending", "usable", "action", "inventory_digest", "replayed"],
      field ev' name = field ev name)
    (hhas : hasField ev' "replayed" = hasField ev "replayed") : Graded n ev' pending usable where
  states := by rw [hfield "status" (by decide)]; exact h.states
  pending := by rw [hfield "pending" (by decide)]; exact h.pending
  usable := by rw [hfield "usable" (by decide)]; exact h.usable
  action := by rw [hfield "action" (by decide)]; exact h.action
  digest := by rw [hfield "inventory_digest" (by decide), hfield "status" (by decide)]; exact h.digest
  replayed := by rw [hhas, hfield "replayed" (by decide)]; exact h.replayed
  genesis := by rw [hfield "status" (by decide)]; exact h.genesis

theorem tied_congr {ev ev' : Value} (h : Tied prior ev)
    (hfield : ∀ name ∈ ["status", "action", "inventory_digest"], field ev' name = field ev name) : Tied prior ev' where
  successor := by rw [hfield "status" (by decide)]; exact h.successor
  same := by rw [hfield "action" (by decide), hfield "inventory_digest" (by decide)]; exact h.same
  reconciled := by rw [hfield "status" (by decide), hfield "action" (by decide)]; exact h.reconciled

theorem Fits.field_completed (h : Fits es e) {name : String} (h1 : name ≠ "event_id") (h2 : name ≠ "at")
    (h3 : name ≠ "prior_event_id") (eventId now : String) :
    field (.obj (completed j e eventId now)) name = field (.obj e) name := by
  rw [field_obj, field_obj, Dict.get, Dict.get, get_completed h1 h2 h3 h.first]

/-- An event that fits, with a fresh identity, passes the checks at its place. -/
theorem Fits.checked (h : Fits (events j) e) (hsound : eventsFault host (events j) = none) {eventId now : String}
    (hid : State.isHexOf 32 eventId = true)
    (hfresh : (events j).any (fun row => (field row "event_id").isText eventId) = false) :
    Checked host (events j ++ [.obj (completed j e eventId now)]) (events j).length
      (.obj (completed j e eventId now)) where
  object := rfl
  identity := by
    rw [field_obj, completed_id h.first]
    exact hid
  fresh := by
    rw [List.take_left, field_obj, completed_id h.first]
    rw [List.any_eq_false] at hfresh ⊢
    intro row hrow heq
    exact hfresh row hrow (Value.isText_iff.mpr (Value.pyEq_text.mp heq))
  ordered := by
    rw [brokenOrder]
    have hprior := completed_prior h.first eventId now (j := j)
    split
    · next hzero =>
      rw [List.length_eq_zero_iff.mp hzero] at hprior
      change Dict.has _ _ = false
      rw [Dict.has, hprior]
      rfl
    · next hzero =>
      have hlt : (events j).length - 1 < (events j).length := by omega
      have hlast : (events j)[(events j).length - 1]? = (events j).getLast? := List.getLast?_eq_getElem?.symm
      rw [List.getElem?_append_left hlt, hlast]
      cases hget : (events j).getLast? with
      | none => rw [List.getLast?_eq_none_iff] at hget; simp [hget] at hzero
      | some last =>
        dsimp only
        rw [hget] at hprior
        have hchecked := eventFault_none.mp (eventsFault_iff.mp hsound _ last (hlast.trans hget))
        obtain ⟨s, hs, hhex⟩ := isHexText_iff.mp hchecked.identity
        have hvalue : field (.obj (completed j e eventId now)) "prior_event_id" = .str s := by
          rw [field_obj, Dict.get, hprior, Option.map_some, hs]
          rfl
        rw [hvalue, hs, Value.pyEq_str]
        simp [State.isHexText, hhex]
  graded := by
    obtain ⟨p, u, hg⟩ := h.graded
    right
    refine ⟨statusFault_none.mpr ⟨p, u, graded_congr hg ?_ ?_⟩, ?_⟩
    · intro name hname
      refine h.field_completed ?_ ?_ ?_ eventId now <;> rintro rfl <;> revert hname <;> decide
    · change Dict.has _ _ = Dict.has _ _
      rw [Dict.has, Dict.has, get_completed (by decide) (by decide) (by decide) h.first]
    · cases hget : (events j).getLast? with
      | none =>
        rw [List.getLast?_eq_none_iff] at hget
        rw [hget]
        rfl
      | some last =>
        have hlast : (events j)[(events j).length - 1]? = some last := List.getLast?_eq_getElem?.symm.trans hget
        have hpos : 0 < (events j).length := List.length_pos_of_mem (List.mem_of_getElem? hlast)
        have hsucc : (events j).length = (events j).length - 1 + 1 := by omega
        rw [hsucc]
        refine (transitionFault_none ?_).mpr (tied_congr (h.tied last hget) ?_)
        · rw [List.getElem?_append_left (by omega), hlast]
        · intro name hname
          refine h.field_completed ?_ ?_ ?_ eventId now <;> rintro rfl <;> revert hname <;> decide

end AItelier.Deployment
