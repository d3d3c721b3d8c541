import AItelier.Deployment.Gate
import AItelier.Deployment.Loading

namespace AItelier.Deployment

open AItelier.Lib

variable {β : Type} {host : Host β} {j j' e rest : Dict} {es : List Value} {ev : Value}

variable {p u : Bool} {s : String} {a : Value}

theorem states_cases {v : Value} (h : statesOf v = some (p, u)) :
    (v = .str "authorized" ∧ p = true ∧ u = false) ∨ (v = .str "overridden" ∧ p = true ∧ u = false) ∨
      (v = .str "completed" ∧ p = false ∧ u = true) ∨ (v = .str "aborted" ∧ p = false ∧ u = false) ∨
      (v = .str "reconciled_quiescent" ∧ p = false ∧ u = false) := by
  cases v with
  | str s =>
    obtain ⟨l₁, l₂, hl, -⟩ := List.lookup_eq_some_iff.mp h
    have hmem : (s, (p, u)) ∈ JOURNAL_EVENT_STATES := by
      rw [hl]
      exact List.mem_append_right _ List.mem_cons_self
    simpa [JOURNAL_EVENT_STATES] using hmem
  | _ => cases h

/-- The last event, and `latest`, which is the same but for the order of keys. -/
structure Last (host : Host β) (j latest last : Dict) : Prop where
  atLatest : j.get "latest" = .obj latest
  atEnd : (events j).getLast? = some (.obj last)
  same : (Value.obj latest).canon = (Value.obj last).canon
  plainLatest : (Value.obj latest).Plain
  plainLast : (Value.obj last).Plain
  graded : legacyJournalGenesis (.obj last) = true ∨ ∃ p u, Graded ((events j).length - 1) (.obj last) p u

theorem Formed.last (h : Formed host j) (hplain : (Value.obj j).Plain) (hlast : (events j).getLast? = some ev) :
    ∃ latest last, ev = .obj last ∧ Last host j latest last := by
  have hlatest := h.latest
  rw [latestFault, hlast] at hlatest
  dsimp only at hlatest
  rw [refuse_none, Bool.or_eq_false_iff, Bool.not_eq_false'] at hlatest
  obtain ⟨latest, hobj⟩ := isObject_iff.mp hlatest.1
  have hplainLatest : (Value.obj latest).Plain := hobj ▸ Value.plain_get hplain "latest"
  have hget : (events j)[(events j).length - 1]? = some ev := List.getLast?_eq_getElem?.symm.trans hlast
  have hchecked := eventFault_none.mp (eventsFault_iff.mp h.sound _ ev hget)
  obtain ⟨last, rfl⟩ := isObject_iff.mp hchecked.object
  have hplainEvents : ∀ w ∈ events j, w.Plain := by
    have hlist := Value.plain_get hplain "events"
    rw [events]
    cases hv : j.get "events" with
    | arr items => rw [hv, Value.plain_arr] at hlist; exact hlist
    | _ => exact fun w hw => absurd hw List.not_mem_nil
  have hplainLast := hplainEvents _ (List.mem_of_getLast? hlast)
  refine ⟨latest, last, rfl, hobj, hlast, ?_, hplainLatest, hplainLast, ?_⟩
  · apply Value.canon_eq_of_dumps hplainLatest hplainLast
    rw [hobj] at hlatest
    simpa using hlatest.2
  · rcases hchecked.graded with hg | ⟨hg, _⟩
    · exact .inl (by simpa using (Bool.and_eq_true _ _ ▸ hg).2)
    · exact .inr (statusFault_none.mp hg)

theorem Formed.no_last (h : Formed host j) (hlast : (events j).getLast? = none) : j.get "latest" = .null := by
  have hlatest := h.latest
  rw [latestFault, hlast] at hlatest
  dsimp only at hlatest
  rw [refuse_none, Bool.not_eq_false'] at hlatest
  exact isNull_iff.mp hlatest

section Last

variable {latest last : Dict}

theorem Last.get_canon (h : Last host j latest last) (name : String) :
    (latest.get name).canon = (last.get name).canon := Value.get_canon h.plainLatest h.same name

theorem Last.text (h : Last host j latest last) {name s : String} :
    latest.get name = .str s ↔ last.get name = .str s := by
  have hcanon := h.get_canon name
  constructor
  · intro hs
    rw [hs] at hcanon
    exact Value.canon_str hcanon.symm
  · intro hs
    rw [hs] at hcanon
    exact Value.canon_str hcanon

theorem Last.bool (h : Last host j latest last) {name : String} {b : Bool} :
    latest.get name = .bool b ↔ last.get name = .bool b := by
  have hcanon := h.get_canon name
  constructor
  · intro hs
    rw [hs] at hcanon
    exact Value.canon_bool hcanon.symm
  · intro hs
    rw [hs] at hcanon
    exact Value.canon_bool hcanon

theorem Last.find_isSome (h : Last host j latest last) (name : String) : latest.has name = last.has name := by
  have hfind := Value.find_canon h.plainLatest h.same name
  rw [Dict.has, Dict.has, ← Option.isSome_map (f := Value.canon), hfind, Option.isSome_map]

theorem latestOf_eq (h : Last host j latest last) : latestOf j = latest := by
  rw [latestOf, h.atLatest]
  rfl

/-- A genesis without an action is read as one from `latest` too. -/
theorem Last.legacy (h : Last host j latest last) :
    legacyJournalGenesis (.obj latest) = legacyJournalGenesis (.obj last) := by
  have hall : ∀ (d d' : Dict) (names : List String), (∀ name, d.has name = d'.has name) →
      keysAre d names = true → keysAre d' names = true := by
    intro d d' names hhas hkeys
    rw [keysAre, Bool.and_eq_true, List.all_eq_true, List.all_eq_true] at hkeys ⊢
    refine ⟨fun f hf => ?_, fun name hname => hhas name ▸ hkeys.2 name hname⟩
    obtain ⟨g, hg, hgf⟩ := Dict.has_iff.mp ((hhas f.1).trans (Dict.has_iff.mpr ⟨f, hf, rfl⟩))
    exact hgf ▸ hkeys.1 g hg
  have hkeys : ∀ names, keysAre latest names = keysAre last names := by
    intro names
    apply Bool.eq_iff_iff.mpr
    exact ⟨hall latest last names h.find_isSome, hall last latest names (fun name => (h.find_isSome name).symm)⟩
  have hstatus : (latest.get "status").isText "aborted" = (last.get "status").isText "aborted" := by
    apply Bool.eq_iff_iff.mpr
    rw [Value.isText_iff, Value.isText_iff]
    exact h.text
  have husable : isBool false (latest.get "usable") = isBool false (last.get "usable") := by
    apply Bool.eq_iff_iff.mpr
    rw [isBool_iff, isBool_iff]
    exact h.bool
  rw [legacyJournalGenesis, legacyJournalGenesis, hkeys]
  change (_ && (latest.get "status").isText "aborted" && isBool false (latest.get "usable")) = _
  rw [hstatus, husable]

theorem legacy_fields {d : Dict} (h : legacyJournalGenesis (.obj d) = true) :
    d.get "status" = .str "aborted" ∧ d.has "pending" = false := by
  rw [legacyJournalGenesis, Bool.and_eq_true, Bool.and_eq_true, keysAre, Bool.and_eq_true] at h
  refine ⟨Value.isText_iff.mp h.1.2, ?_⟩
  rw [Bool.eq_false_iff]
  intro hhas
  obtain ⟨f, hf, hname⟩ := Dict.has_iff.mp hhas
  have hmem := List.all_eq_true.mp h.1.1.1 f hf
  rw [hname] at hmem
  revert hmem
  decide

/-- A pending event is an authorization, with the action and inventory it was given for. -/
theorem Last.pending (h : Last host j latest last) (hpending : (latest.get "pending").isTrue = true) :
    (last.get "status" = .str "authorized" ∨ last.get "status" = .str "overridden") ∧
      ∃ action digest, last.get "action" = .str action ∧ latest.get "action" = .str action ∧
        isOneOf DEPLOY_ACTIONS (.str action) = true ∧ last.get "inventory_digest" = .str digest ∧
        latest.get "inventory_digest" = .str digest ∧ State.isHexOf 64 digest = true := by
  have htrue : last.get "pending" = .bool true := h.bool.mp (isTrue_iff.mp hpending)
  rcases h.graded with hlegacy | ⟨p, u, hg⟩
  · have hnone := (legacy_fields hlegacy).2
    rw [Dict.has, Option.isSome_eq_false_iff, Option.isNone_iff_eq_none] at hnone
    rw [Dict.get, hnone] at htrue
    cases htrue
  · have hp : p = true := by
      have hfield : last.get "pending" = .bool p := hg.pending
      rw [htrue] at hfield
      cases hfield
      rfl
    have hstatus : last.get "status" = .str "authorized" ∨ last.get "status" = .str "overridden" := by
      rcases states_cases hg.states with ⟨hs, _⟩ | ⟨hs, _⟩ | ⟨_, hf, _⟩ | ⟨_, hf, _⟩ | ⟨_, hf, _⟩
      · exact .inl hs
      · exact .inr hs
      all_goals rw [hp] at hf; cases hf
    obtain ⟨action, haction, hact⟩ := isOneOf_iff.mp hg.action
    have hdigest : State.isHexText 64 (last.get "inventory_digest") = true := by
      rcases hg.digest with hd | ⟨hs, _⟩
      · exact hd
      · rcases hstatus with ha | ha <;> rw [field_obj, ha] at hs <;> exact absurd (Value.str.inj hs) (by decide)
    obtain ⟨digest, hd, hhex⟩ := isHexText_iff.mp hdigest
    exact ⟨hstatus, action, digest, hact, h.text.mpr hact, isOneOf_iff.mpr ⟨action, haction, rfl⟩, hd,
      h.text.mpr hd, hhex⟩

theorem Last.settled (h : Last host j latest last) (hpending : (latest.get "pending").isTrue = false) :
    last.get "status" = .str "completed" ∨ last.get "status" = .str "aborted" ∨
      last.get "status" = .str "reconciled_quiescent" := by
  rcases h.graded with hlegacy | ⟨p, u, hg⟩
  · exact .inr (.inl (legacy_fields hlegacy).1)
  · have hfield : latest.get "pending" = .bool p := h.bool.mpr hg.pending
    rcases states_cases hg.states with ⟨_, rfl, _⟩ | ⟨_, rfl, _⟩ | ⟨hs, _⟩ | ⟨hs, _⟩ | ⟨hs, _⟩
    · rw [hfield] at hpending
      cases hpending
    · rw [hfield] at hpending
      cases hpending
    · exact .inl hs
    · exact .inr (.inl hs)
    · exact .inr (.inr hs)

end Last

theorem find_flagged {name : String}
    (h : name ∉ ["action", "status", "pending", "usable", "replayed"]) :
    (Dict.find (flagged a s p u ++ rest) name) = rest.find name := by
  simp only [List.mem_cons, List.not_mem_nil, or_false, not_or] at h
  obtain ⟨h1, h2, h3, h4, h5⟩ := h
  simp [flagged, Dict.find, Ne.symm h1, Ne.symm h2, Ne.symm h3, Ne.symm h4, Ne.symm h5]

theorem fits_flagged (hstates : statesOf (.str s) = some (p, u))
    (haction : isOneOf DEPLOY_ACTIONS a = true)
    (hdigest : State.isHexText 64 (rest.get "inventory_digest") = true ∨
      (s = "aborted" ∧ rest.get "inventory_digest" = .null))
    (hfirst : rest.find "prior_event_id" = none)
    (hgenesis : es = [] → isOneOf ["authorized", "overridden", "aborted"] (.str s) = true)
    (hsucc : ∀ prior, es.getLast? = some prior → isOneOf (successorsOf (field prior "status")) (.str s) = true)
    (hsame : ∀ prior, es.getLast? = some prior → isOneOf ["authorized", "overridden"] (field prior "status") = true →
      a.pyEq (field prior "action") = true ∧
        (rest.get "inventory_digest").pyEq (field prior "inventory_digest") = true)
    (hrec : ∀ prior, es.getLast? = some prior → s = "reconciled_quiescent" → a.pyEq (field prior "action") = true) :
    Fits es (flagged a s p u ++ rest) := by
  have hact : field (.obj (flagged a s p u ++ rest)) "action" = a := by simp [field, Dict.get, Dict.find, flagged]
  have hstatus : field (.obj (flagged a s p u ++ rest)) "status" = .str s := by
    simp [field, Dict.get, Dict.find, flagged]
  have hpending : field (.obj (flagged a s p u ++ rest)) "pending" = .bool p := by
    simp [field, Dict.get, Dict.find, flagged]
  have husable : field (.obj (flagged a s p u ++ rest)) "usable" = .bool u := by
    simp [field, Dict.get, Dict.find, flagged]
  have hreplayed : field (.obj (flagged a s p u ++ rest)) "replayed" = .bool false := by
    simp [field, Dict.get, Dict.find, flagged]
  have hdig : field (.obj (flagged a s p u ++ rest)) "inventory_digest" = rest.get "inventory_digest" := by
    rw [field_obj, Dict.get, find_flagged (by decide)]
    rfl
  refine ⟨⟨p, u, ?_⟩, ?_, ?_⟩
  · refine ⟨by rw [hstatus]; exact hstates, hpending, husable, by rw [hact]; exact haction, ?_, fun _ => hreplayed, ?_⟩
    · rw [hdig, hstatus]
      exact hdigest.imp_right (fun h => ⟨congrArg _ h.1, h.2⟩)
    · intro hzero
      rw [hstatus]
      exact hgenesis (List.length_eq_zero_iff.mp hzero)
  · intro prior hprior
    refine ⟨by rw [hstatus]; exact hsucc prior hprior, ?_, ?_⟩
    · rw [hact, hdig]
      exact hsame prior hprior
    · rw [hstatus, hact]
      exact fun hs => hrec prior hprior (Value.str.inj hs)
  · rw [find_flagged (by decide)]
    exact hfirst

/-- Behind a closed event. -/
def Settled (es : List Value) : Prop :=
  ∀ prior, es.getLast? = some prior → ∃ s ∈ ["completed", "aborted", "reconciled_quiescent"],
  field prior "status" = .str s

/-- A new decision fits behind a closed event. -/
theorem fits_settled (hes : Settled es)
    (hs : s = "authorized" ∨ s = "overridden" ∨ s = "aborted") (hstates : statesOf (.str s) = some (p, u))
    (haction : isOneOf DEPLOY_ACTIONS a = true)
    (hdigest : State.isHexText 64 (rest.get "inventory_digest") = true ∨
      (s = "aborted" ∧ rest.get "inventory_digest" = .null))
    (hfirst : rest.find "prior_event_id" = none) : Fits es (flagged a s p u ++ rest) := by
  apply fits_flagged hstates haction hdigest hfirst
  · intro _
    rcases hs with rfl | rfl | rfl <;> decide
  · intro prior hprior
    obtain ⟨t, ht, heq⟩ := hes prior hprior
    rw [heq]
    simp only [List.mem_cons, List.not_mem_nil, or_false] at ht
    rcases ht with rfl | rfl | rfl <;> rcases hs with rfl | rfl | rfl <;> decide
  · intro prior hprior hopen
    obtain ⟨t, ht, heq⟩ := hes prior hprior
    rw [heq] at hopen
    simp only [List.mem_cons, List.not_mem_nil, or_false] at ht
    rcases ht with rfl | rfl | rfl <;> exact absurd hopen (by decide)
  · intro prior _ hrec
    rcases hs with rfl | rfl | rfl <;> exact absurd hrec (by decide)

/-- What closes an authorization fits behind it. -/
theorem fits_pending {latest last : Dict} {u : Bool} (h : Last host j latest last)
    (hpending : (latest.get "pending").isTrue = true) (hs : s = "completed" ∨ s = "aborted")
    (hstates : statesOf (.str s) = some (false, u)) (hfirst : rest.find "prior_event_id" = none)
    (hrest : rest.get "inventory_digest" = latest.get "inventory_digest") :
    Fits (events j) (flagged (latest.get "action") s false u ++ rest) := by
  obtain ⟨hstatus, action, digest, hact, hact', hone, hdig, hdig', hhex⟩ := h.pending hpending
  have hprior : ∀ prior, (events j).getLast? = some prior → prior = .obj last := by
    intro prior hp
    rw [h.atEnd] at hp
    cases hp
    rfl
  rw [hact']
  apply fits_flagged hstates hone
  · left
    rw [hrest, hdig']
    exact hhex
  · exact hfirst
  · intro hnil
    have hlast := h.atEnd
    rw [hnil] at hlast
    cases hlast
  · intro prior hp
    rw [hprior prior hp, field_obj]
    rcases hstatus with hst | hst <;> rw [hst] <;> rcases hs with rfl | rfl <;> decide
  · intro prior hp _
    rw [hprior prior hp, field_obj, field_obj, hact, hrest, hdig', hdig]
    simp
  · intro prior hp hrec
    rcases hs with rfl | rfl <;> exact absurd hrec (by decide)

theorem fits_interrupted {latest last : Dict} (h : Last host j latest last)
    (hpending : (latest.get "pending").isTrue = true) : Fits (events j) (interruptedEvent latest) :=
  fits_pending h hpending (.inr rfl) rfl rfl rfl

theorem fits_final {latest last : Dict} (h : Last host j latest last)
    (hpending : (latest.get "pending").isTrue = true) (success : Bool) (error : Option String) :
    Fits (events j) (finalEvent latest success error) := by
  rw [finalEvent, List.append_assoc]
  cases success with
  | true => exact fits_pending h hpending (.inl rfl) rfl rfl rfl
  | false => exact fits_pending h hpending (.inr rfl) rfl rfl rfl

end AItelier.Deployment
