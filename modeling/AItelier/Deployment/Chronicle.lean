import AItelier.Deployment.Usable

namespace AItelier.Deployment

open AItelier.Lib

variable {β : Type} {host : Host β} {j k e : Dict} {d : Disk β} {es : List Value} {ev prior next : Value} {n : Nat}

/-- Two events that agree on the action and the inventory, the first an authorization. -/
structure Closes (prior ev : Value) : Prop where
  opened : field prior "status" = .str "authorized" ∨ field prior "status" = .str "overridden"
  action : ∃ action, field prior "action" = .str action ∧ field ev "action" = .str action
  digest : ∃ digest, field prior "inventory_digest" = .str digest ∧ field ev "inventory_digest" = .str digest

/-- An event at its place: only a completion is usable, and stands behind what it
completes; what is pending is closed by the event behind it; no identity is used twice. -/
structure Placed (es : List Value) (n : Nat) (ev : Value) : Prop where
  usable : (field ev "usable").isTrue = true → field ev "status" = .str "completed"
  completed : field ev "status" = .str "completed" → ∃ m prior, n = m + 1 ∧ es[m]? = some prior ∧ Closes prior ev
  pending : (field ev "pending").isTrue = true → ∀ next, es[n + 1]? = some next →
    Closes ev next ∧ (field next "status" = .str "completed" ∨ field next "status" = .str "aborted")
  unique : ∀ m w, m < n → es[m]? = some w → field w "event_id" ≠ field ev "event_id"

def Chronicle (es : List Value) : Prop := ∀ n ev, es[n]? = some ev → Placed es n ev

theorem checked_status (h : Checked host es n ev) :
    field ev "status" = .str "aborted" ∧ field ev "usable" = .bool false ∧ field ev "pending" = .null ∨
      ∃ p u, Graded n ev p u := by
  rcases h.graded with hg | ⟨hg, _⟩
  · left
    rw [Bool.and_eq_true] at hg
    obtain ⟨d, rfl⟩ := isObject_iff.mp h.object
    obtain ⟨hstatus, hpending⟩ := legacy_fields hg.2
    refine ⟨hstatus, ?_, ?_⟩
    · have husable := hg.2
      rw [legacyJournalGenesis, Bool.and_eq_true] at husable
      exact isBool_iff.mp husable.2
    · rw [Dict.has, Option.isSome_eq_false_iff, Option.isNone_iff_eq_none] at hpending
      rw [field_obj, Dict.get, hpending]
      rfl
  · exact .inr (statusFault_none.mp hg)

theorem graded_closes {m : Nat} {p u : Bool} (hprior : Graded m prior p u)
    (hopen : field prior "status" = .str "authorized" ∨ field prior "status" = .str "overridden")
    (htied : Tied prior ev) : Closes prior ev := by
  have hone : isOneOf ["authorized", "overridden"] (field prior "status") = true := by
    rcases hopen with h | h <;> rw [h] <;> decide
  obtain ⟨hact, hdig⟩ := htied.same hone
  obtain ⟨action, -, haction⟩ := isOneOf_iff.mp hprior.action
  have hdigest : State.isHexText 64 (field prior "inventory_digest") = true := by
    rcases hprior.digest with hd | ⟨hs, _⟩
    · exact hd
    · rcases hopen with h | h <;> rw [h] at hs <;> exact absurd (Value.str.inj hs) (by decide)
  obtain ⟨digest, hd, -⟩ := isHexText_iff.mp hdigest
  refine ⟨hopen, ⟨action, haction, ?_⟩, digest, hd, ?_⟩
  · rw [haction] at hact
    exact Value.pyEq_text.mp hact
  · rw [hd] at hdig
    exact Value.pyEq_text.mp hdig

theorem checked_tied {m : Nat} (h : Checked host es (m + 1) ev) (hprior : es[m]? = some prior) : Tied prior ev := by
  rcases h.graded with hg | ⟨_, hg⟩
  · simp at hg
  · exact (transitionFault_none hprior).mp hg

theorem status_opened {p u : Bool} (h : Graded n ev p u) (hp : p = true) :
    field ev "status" = .str "authorized" ∨ field ev "status" = .str "overridden" := by
  rcases states_cases h.states with ⟨hs, _⟩ | ⟨hs, _⟩ | ⟨_, hf, _⟩ | ⟨_, hf, _⟩ | ⟨_, hf, _⟩
  · exact .inl hs
  · exact .inr hs
  all_goals rw [hp] at hf; cases hf

theorem checked_unique (h : Checked host es n ev) {m : Nat} {w : Value} (hm : m < n) (hw : es[m]? = some w) :
    field w "event_id" ≠ field ev "event_id" := by
  intro heq
  obtain ⟨s, hs, -⟩ := isHexText_iff.mp h.identity
  have hfresh := h.fresh
  rw [List.any_eq_false] at hfresh
  apply hfresh w (List.mem_of_getElem? ((List.getElem?_take_of_lt hm).trans hw))
  rw [heq, hs]
  simp

theorem chronicle_of_sound (h : eventsFault host es = none) : Chronicle es := by
  rw [eventsFault_iff] at h
  have hchecked : ∀ n ev, es[n]? = some ev → Checked host es n ev := fun n ev hev => eventFault_none.mp (h n ev hev)
  intro n ev hev
  have hself := hchecked n ev hev
  refine ⟨?_, ?_, ?_, fun m w hm hw => checked_unique hself hm hw⟩
  · intro husable
    rcases checked_status hself with ⟨-, hf, -⟩ | ⟨p, u, hg⟩
    · rw [hf] at husable
      cases husable
    · rw [hg.usable] at husable
      rcases states_cases hg.states with ⟨_, _, rfl⟩ | ⟨_, _, rfl⟩ | ⟨hs, _, _⟩ | ⟨_, _, rfl⟩ | ⟨_, _, rfl⟩
      · cases husable
      · cases husable
      · exact hs
      · cases husable
      · cases husable
  · intro hcompleted
    rcases checked_status hself with ⟨hs, -, -⟩ | ⟨p, u, hg⟩
    · rw [hcompleted] at hs
      exact absurd (Value.str.inj hs) (by decide)
    · cases n with
      | zero =>
        have hgenesis := hg.genesis rfl
        rw [hcompleted] at hgenesis
        exact absurd hgenesis (by decide)
      | succ m =>
        have hlt : m < es.length := Nat.lt_of_succ_lt (List.getElem?_eq_some_iff.mp hev).1
        have hprior : es[m]? = some es[m] := List.getElem?_eq_getElem hlt
        have htied := checked_tied hself hprior
        have hsucc := htied.successor
        rw [hcompleted] at hsucc
        refine ⟨m, es[m], rfl, hprior, ?_⟩
        rcases checked_status (hchecked m _ hprior) with ⟨hs, -, -⟩ | ⟨p', u', hg'⟩
        · rw [hs] at hsucc
          exact absurd hsucc (by decide)
        · refine graded_closes hg' ?_ htied
          rcases states_cases hg'.states with ⟨hs, _⟩ | ⟨hs, _⟩ | ⟨hs, _⟩ | ⟨hs, _⟩ | ⟨hs, _⟩
          · exact .inl hs
          · exact .inr hs
          all_goals
            rw [hs] at hsucc
            exact absurd hsucc (by decide)
  · intro hpending next hnext
    rcases checked_status hself with ⟨-, -, hnull⟩ | ⟨p, u, hg⟩
    · rw [hnull] at hpending
      cases hpending
    · rw [hg.pending] at hpending
      have hopen := status_opened hg hpending
      have hnextChecked := hchecked (n + 1) next hnext
      have htied := checked_tied hnextChecked hev
      rcases checked_status hnextChecked with ⟨hs, -, -⟩ | ⟨p', u', hg'⟩
      · exact ⟨graded_closes hg hopen htied, .inr hs⟩
      · refine ⟨graded_closes hg hopen htied, ?_⟩
        have hsucc := htied.successor
        rcases hopen with ho | ho
        all_goals
          rw [ho] at hsucc
          obtain ⟨s, hs, heq⟩ := isOneOf_iff.mp hsucc
          have hmem : s = "completed" ∨ s = "aborted" := by
            simpa [successorsOf, JOURNAL_SUCCESSORS, List.lookup_cons] using hs
          rcases hmem with rfl | rfl
          · exact .inl heq
          · exact .inr heq

/-- What an event must be to stand behind the last. -/
structure Follows (es : List Value) (ev : Value) : Prop where
  usable : (field ev "usable").isTrue = true → field ev "status" = .str "completed"
  completed : field ev "status" = .str "completed" → ∃ prior, es.getLast? = some prior ∧ Closes prior ev
  closing : ∀ prior, es.getLast? = some prior → (field prior "pending").isTrue = true →
    Closes prior ev ∧ (field ev "status" = .str "completed" ∨ field ev "status" = .str "aborted")
  unused : ∀ w ∈ es, field w "event_id" ≠ field ev "event_id"

theorem Chronicle.append (h : Chronicle es) (hev : Follows es ev) : Chronicle (es ++ [ev]) := by
  intro n w hw
  by_cases hlt : n < es.length
  · rw [List.getElem?_append_left hlt] at hw
    have hplaced := h n w hw
    refine ⟨hplaced.usable, ?_, ?_, ?_⟩
    · intro hcompleted
      obtain ⟨m, prior, hm, hprior, hcloses⟩ := hplaced.completed hcompleted
      exact ⟨m, prior, hm, by rw [List.getElem?_append_left (by omega)]; exact hprior, hcloses⟩
    · intro hpending next hnext
      by_cases hnlt : n + 1 < es.length
      · rw [List.getElem?_append_left hnlt] at hnext
        exact hplaced.pending hpending next hnext
      · have hn : n + 1 = es.length := by omega
        rw [hn, List.getElem?_append_right (Nat.le_refl _), Nat.sub_self] at hnext
        cases hnext
        have hlast : es.getLast? = some w := by
          rw [List.getLast?_eq_getElem?, ← hn, Nat.add_sub_cancel]
          exact hw
        exact hev.closing w hlast hpending
    · intro m v hm hv
      rw [List.getElem?_append_left (by omega)] at hv
      exact hplaced.unique m v hm hv
  · have hlen := (List.getElem?_eq_some_iff.mp hw).1
    rw [List.length_append, List.length_singleton] at hlen
    have hn : n = es.length := by omega
    subst hn
    rw [List.getElem?_append_right (Nat.le_refl _), Nat.sub_self] at hw
    cases hw
    refine ⟨hev.usable, ?_, ?_, ?_⟩
    · intro hcompleted
      obtain ⟨prior, hprior, hcloses⟩ := hev.completed hcompleted
      have hget : es[es.length - 1]? = some prior := List.getLast?_eq_getElem?.symm.trans hprior
      have hpos : 0 < es.length := List.length_pos_of_mem (List.mem_of_getElem? hget)
      exact ⟨es.length - 1, prior, by omega, by rw [List.getElem?_append_left (by omega)]; exact hget, hcloses⟩
    · intro _ next hnext
      have hnlen := (List.getElem?_eq_some_iff.mp hnext).1
      rw [List.length_append, List.length_singleton] at hnlen
      omega
    · intro m v hm hv
      rw [List.getElem?_append_left hm] at hv
      exact hev.unused v (List.mem_of_getElem? hv)

theorem Chronicle.last_only (h : Chronicle (es ++ [ev])) {w : Value} (hw : w ∈ es) :
    field w "event_id" ≠ field ev "event_id" := by
  obtain ⟨m, hm, rfl⟩ := List.mem_iff_getElem.mp hw
  have hplaced := h es.length ev (by rw [List.getElem?_append_right (Nat.le_refl _), Nat.sub_self]; rfl)
  exact hplaced.unique m _ hm (by rw [List.getElem?_append_left hm]; exact List.getElem?_eq_getElem hm)

end AItelier.Deployment
