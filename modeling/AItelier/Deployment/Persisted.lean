import AItelier.Deployment.Appending

namespace AItelier.Deployment

open AItelier.Lib

variable {β : Type} {host : Host β} {j j' k c e : Dict} {d : Disk β}

/-- The journal with a completed event at its end. -/
def appended (j c : Dict) : Dict := (j.put "events" (.arr (events j ++ [.obj c]))).put "latest" (.obj c)

theorem appendTo_ok {eventId now : String} {r : Dict × Dict} (h : appendTo j e eventId now = .ok r) :
    (events j).any (fun row => (field row "event_id").isText eventId) = false ∧
      r = (appended j (completed j e eventId now), completed j e eventId now) := by
  rw [appendTo] at h
  split at h
  · cases h
  · next hfresh =>
    injection h with h
    exact ⟨Bool.not_eq_true _ ▸ hfresh, h.symm⟩

@[simp] theorem events_appended (j c : Dict) : events (appended j c) = events j ++ [.obj c] := by
  rw [events, appended, Dict.get_put_other (by decide), Dict.get_put_self]
  rfl

@[simp] theorem latest_appended (j c : Dict) : (appended j c).get "latest" = .obj c := Dict.get_put_self

theorem find_appended {name : String} (h1 : name ≠ "events") (h2 : name ≠ "latest") (j c : Dict) :
    (appended j c).find name = j.find name := by
  rw [appended, Dict.find_put_other h2, Dict.find_put_other h1]

theorem find_chained {name : String} (h : name ≠ "chain") (host : Host β) (j : Dict) :
    (chained host j).find name = j.find name := Dict.find_put_other h

@[simp] theorem events_chained (host : Host β) (j : Dict) : events (chained host j) = events j := by
  rw [events, Dict.get, find_chained (by decide)]
  rfl

theorem chain_chained (host : Host β) (j : Dict) : chain host (chained host j) = chain host j := by
  rw [chain, chain]
  change chainFrom host ((chained host j).get "journal_id") 0 .null (events (chained host j)) = _
  rw [events_chained, Dict.get, find_chained (by decide)]
  rfl

structure Sheet (host : Host β) (j : Dict) : Prop where
  formed : Formed host j
  current : isVersion 2 (j.get "version") = true
  fields : j.all (fun f => JOURNAL_FIELDS.contains f.1) = true
  identity : State.isHexText 32 (j.get "journal_id") = true

theorem Valid.sheet (h : Valid host j) : Sheet host j := by
  have hchained := h.chained
  rw [chainBroken, Bool.or_eq_false_iff, Bool.or_eq_false_iff] at hchained
  exact ⟨h.sound, h.current, by simpa using hchained.1.1, by simpa using hchained.1.2⟩

theorem fields_put {name : String} {v : Value} (h : j.all (fun f => JOURNAL_FIELDS.contains f.1) = true)
    (hname : JOURNAL_FIELDS.contains name = true) :
    (j.put name v).all (fun f => JOURNAL_FIELDS.contains f.1) = true := by
  rw [List.all_eq_true] at h ⊢
  intro f hf
  rcases Dict.mem_put hf with rfl | hf
  · exact hname
  · exact h f hf

theorem get_of_find {d d' : Dict} {name : String} (h : d.find name = d'.find name) : d.get name = d'.get name := by
  rw [Dict.get, Dict.get, h]

/-- An event that fits keeps the journal in order. -/
theorem Sheet.appended (h : Sheet host j) (hfits : Fits (events j) e) {eventId now : String}
    (hid : State.isHexOf 32 eventId = true)
    (hfresh : (events j).any (fun row => (field row "event_id").isText eventId) = false) :
    Sheet host (appended j (completed j e eventId now)) where
  formed := by
    refine ⟨?_, ?_, ?_⟩
    · rw [Deployment.appended, Dict.get_put_other (by decide), Dict.get_put_self]
      rfl
    · rw [events_appended]
      exact eventsFault_append.mpr
        ⟨h.formed.sound, eventFault_none.mpr (hfits.checked h.formed.sound hid hfresh)⟩
    · rw [events_appended, latestFault, List.getLast?_concat]
      dsimp only
      rw [latest_appended]
      simp [isObject]
  current := by
    rw [get_of_find (find_appended (by decide) (by decide) j _)]
    exact h.current
  fields := fields_put (fields_put h.fields (by decide)) (by decide)
  identity := by
    rw [get_of_find (find_appended (by decide) (by decide) j _)]
    exact h.identity

theorem plain_chainFrom (host : Host β) (id : Value) (n : Nat) (prev : Value) (es : List Value) :
    (Value.arr (chainFrom host id n prev es)).Plain := by
  rw [Value.Plain]
  induction es generalizing n prev with
  | nil => trivial
  | cons ev es ih => exact ⟨trivial, ih (n + 1) _⟩

/-- Chaining what is in order makes it valid. -/
theorem Sheet.valid (h : Sheet host j) : Valid host (chained host j) where
  formed := by
    refine validate_none.mpr ⟨.inr ?_, ?_, ?_, ?_⟩
    · rw [get_of_find (find_chained (by decide) host j)]
      exact h.current
    · rw [get_of_find (find_chained (by decide) host j)]
      exact h.formed.list
    · rw [events_chained]
      exact h.formed.sound
    · have hlatest := h.formed.latest
      rw [latestFault] at hlatest ⊢
      rw [events_chained, get_of_find (find_chained (by decide) host j)]
      exact hlatest
  current := by
    rw [get_of_find (find_chained (by decide) host j)]
    exact h.current
  chained := by
    rw [chainBroken, chain_chained, get_of_find (find_chained (by decide) host j), h.identity]
    have hfields : (chained host j).all (fun f => JOURNAL_FIELDS.contains f.1) = true := fields_put h.fields (by decide)
    have hget : (chained host j).get "chain" = .arr (chain host j) := Dict.get_put_self
    rw [hfields, hget, chain, Value.pyEq_refl _ (plain_chainFrom host _ _ _ _)]
    rfl

/-- A journal that has grown: its events at the front, all else but `latest` and the
chain as it was. -/
structure Extends (j j' : Dict) : Prop where
  migration : j'.find "migration" = j.find "migration"
  identity : j'.get "journal_id" = j.get "journal_id"
  grown : ∃ added, events j' = events j ++ added

theorem Extends.refl (j : Dict) : Extends j j := ⟨rfl, rfl, [], (List.append_nil _).symm⟩

theorem Extends.trans (h : Extends j j') (h' : Extends j' k) : Extends j k := by
  obtain ⟨added, hadded⟩ := h.grown
  obtain ⟨more, hmore⟩ := h'.grown
  refine ⟨h'.migration.trans h.migration, h'.identity.trans h.identity, added ++ more, ?_⟩
  rw [hmore, hadded, List.append_assoc]

theorem extends_appended (j c : Dict) : Extends j (appended j c) :=
  ⟨find_appended (by decide) (by decide) j c, get_of_find (find_appended (by decide) (by decide) j c), [.obj c],
    events_appended j c⟩

theorem chainFrom_append (host : Host β) (id : Value) (n : Nat) (prev : Value) (es fs : List Value) :
    ∃ more, chainFrom host id n prev (es ++ fs) = chainFrom host id n prev es ++ more := by
  induction es generalizing n prev with
  | nil => exact ⟨_, rfl⟩
  | cons ev es ih =>
    obtain ⟨more, hmore⟩ := ih (n + 1) (link host id n prev ev)
    exact ⟨more, by rw [List.cons_append, chainFrom, hmore]; rfl⟩

theorem Extends.chain (h : Extends j j') (host : Host β) : ∃ more, chain host j' = chain host j ++ more := by
  obtain ⟨added, hadded⟩ := h.grown
  obtain ⟨more, hmore⟩ := chainFrom_append host (j.get "journal_id") 0 .null (events j) added
  refine ⟨more, ?_⟩
  change chainFrom host (j'.get "journal_id") 0 .null (events j') = _
  rw [h.identity, hadded, hmore]
  rfl

theorem eqItems_length {vs ws : List Value} (h : Value.eqItems vs ws = true) : vs.length = ws.length := by
  induction vs generalizing ws with
  | nil => cases ws <;> simp_all [Value.eqItems]
  | cons v vs ih =>
    cases ws with
    | nil => simp [Value.eqItems] at h
    | cons w ws =>
      rw [Value.eqItems, Bool.and_eq_true] at h
      rw [List.length_cons, List.length_cons, ih h.2]

theorem eq_chainFrom {vs : List Value} {host : Host β} {id prev : Value} {n : Nat} {es : List Value}
    (h : Value.eqItems vs (chainFrom host id n prev es) = true) : vs = chainFrom host id n prev es := by
  induction es generalizing vs n prev with
  | nil =>
    cases vs with
    | nil => rfl
    | cons v vs => simp [chainFrom, Value.eqItems] at h
  | cons ev es ih =>
    cases vs with
    | nil => simp [chainFrom, Value.eqItems] at h
    | cons v vs =>
      rw [chainFrom, Value.eqItems, Bool.and_eq_true] at h
      rw [chainFrom, Value.pyEq_text.mp h.1, ih h.2]
      rfl

theorem Valid.chain_eq (h : Valid host j) : j.get "chain" = .arr (chain host j) := by
  have hchained := h.chained
  rw [chainBroken, Bool.or_eq_false_iff, Bool.not_eq_false'] at hchained
  obtain ⟨vs, hvs, heq⟩ := Value.pyEq_items hchained.2
  rw [hvs, eq_chainFrom heq]
  rfl

/-- A target that stands at the front of the journal stands at the front of what
extends it. -/
theorem targetMismatch_extends {target migration : Value} (hvalid : Valid host j) (hext : Extends j j')
    (h : targetMismatch host target (.obj j) migration = false) :
    targetMismatch host target (.obj (chained host j')) migration = false := by
  obtain ⟨added, hadded⟩ := hext.grown
  obtain ⟨more, hmore⟩ := hext.chain host
  have hevents : itemsOf (field (.obj (chained host j')) "events") = events j ++ added :=
    (events_chained host j').trans hadded
  have hchain : itemsOf (field (.obj (chained host j')) "chain") = chain host j ++ more := by
    rw [field_obj, chained, Dict.get_put_self]
    exact hmore
  have hold : itemsOf (field (.obj j) "chain") = chain host j := by
    rw [field_obj, hvalid.chain_eq]
    rfl
  have hid : field (.obj (chained host j')) "journal_id" = field (.obj j) "journal_id" := by
    rw [field_obj, field_obj, get_of_find (find_chained (by decide) host j'), hext.identity]
  rw [targetMismatch] at h ⊢
  rw [hold] at h
  rw [hevents, hchain, hid]
  simp only [Bool.or_eq_false_iff, Bool.not_eq_false', decide_eq_false_iff_not, Nat.not_lt] at h ⊢
  obtain ⟨⟨⟨hfront, hlen⟩, hevs⟩, hch⟩ := h
  change (itemsOf (field target "events")).length ≤ (events j).length at hlen
  have hchlen : (itemsOf (field target "chain")).length ≤ (chain host j).length := by
    have heq := eqItems_length hch
    rw [List.length_take] at heq
    omega
  refine ⟨⟨⟨hfront, ?_⟩, ?_⟩, ?_⟩
  · rw [List.length_append]
    omega
  · rw [List.take_append_of_le_length hlen]
    exact hevs
  · rw [List.take_append_of_le_length hchlen]
    exact hch

theorem validateMigrationTransaction_extends {transaction : Value} (hvalid : Valid host j) (hext : Extends j j')
    (h : validateMigrationTransaction host transaction (.obj j) = none) :
    validateMigrationTransaction host transaction (.obj (chained host j')) = none := by
  have hmigration : field (.obj (chained host j')) "migration" = field (.obj j) "migration" := by
    rw [field_obj, field_obj, get_of_find (find_chained (by decide) host j'), get_of_find hext.migration]
  rw [validateMigrationTransaction] at h ⊢
  rw [hmigration]
  split at h
  · cases h
  · next hwell =>
    rw [if_neg hwell]
    cases hrec : migrationRecoveryBytes host (field (.obj j) "migration") with
    | error stop => rw [hrec] at h; cases h
    | ok raw =>
      rw [hrec] at h
      simp only [firstOf_cons_none, refuse_none] at h ⊢
      exact ⟨h.1, h.2.1, targetMismatch_extends hvalid hext h.2.2.1, rfl⟩

end AItelier.Deployment
