import AItelier.Deployment.Events

namespace AItelier.Deployment

open AItelier.Lib

variable {β : Type} {host : Host β} {o override j e : Dict} {v : Value}

theorem plain_rowsOf (h : v.Plain) : ∀ row ∈ rowsOf v, (Value.obj row).Plain := by
  intro row hrow
  cases v with
  | arr items =>
    rw [Value.plain_arr] at h
    obtain ⟨w, hw, hsome⟩ := List.mem_filterMap.mp hrow
    cases w with
    | obj d =>
      cases hsome
      exact h _ hw
    | _ => cases hsome
  | _ => exact absurd hrow List.not_mem_nil

theorem plain_asRows {rows : List Dict} (h : ∀ row ∈ rows, (Value.obj row).Plain) : (asRows rows).Plain := by
  rw [asRows, Value.plain_arr]
  intro w hw
  obtain ⟨row, hrow, rfl⟩ := List.mem_map.mp hw
  exact h row hrow

theorem plain_itemsOf (h : v.Plain) : ∀ w ∈ itemsOf v, w.Plain := by
  cases v with
  | arr items => rwa [Value.plain_arr] at h
  | _ => exact fun w hw => absurd hw List.not_mem_nil

theorem plain_dictOf (h : v.Plain) : (Value.obj (dictOf v)).Plain := by
  cases v with
  | obj d => exact h
  | _ => exact Value.plain_obj.mpr ⟨List.nodup_nil, fun f hf => absurd hf List.not_mem_nil⟩

theorem plain_cons {name : String} (hv : v.Plain) (hd : (Value.obj e).Plain) (hname : name ∉ e.map Prod.fst) :
    (Value.obj ((name, v) :: e)).Plain := by
  rw [Value.plain_obj] at hd ⊢
  exact ⟨List.nodup_cons.mpr ⟨hname, hd.1⟩, List.forall_mem_cons.mpr ⟨hv, hd.2⟩⟩

theorem plain_text (s : String) : (Value.str s).Plain := trivial

theorem plain_bool (b : Bool) : (Value.bool b).Plain := trivial

theorem plain_nil : (Value.obj []).Plain := Value.plain_obj.mpr ⟨List.nodup_nil, fun _ hf => absurd hf List.not_mem_nil⟩

theorem plain_flagged {a : Value} {s : String} {p u : Bool} (ha : a.Plain) (he : (Value.obj e).Plain)
    (hnew : ∀ name ∈ ["action", "status", "pending", "usable", "replayed"], name ∉ e.map Prod.fst) :
    (Value.obj (flagged a s p u ++ e)).Plain := by
  rw [Value.plain_obj] at he ⊢
  constructor
  · rw [List.map_append]
    refine List.nodup_append.mpr ⟨by simp [flagged], he.1, ?_⟩
    rintro x hx y hy rfl
    exact hnew x (by simpa [flagged] using hx) hy
  · intro f hf
    rcases List.mem_append.mp hf with hf | hf
    · simp only [flagged, List.mem_cons, List.not_mem_nil, or_false] at hf
      rcases hf with rfl | rfl | rfl | rfl | rfl
      · exact ha
      all_goals trivial
    · exact he.2 f hf

theorem plain_resumable (h : v.Plain) : (resumableRunRows v).Plain := by
  apply plain_asRows
  intro row hrow
  obtain ⟨r, hr, rfl⟩ := List.mem_map.mp hrow
  have hr' := plain_rowsOf h r (List.mem_of_mem_filter hr)
  apply plain_cons (Value.plain_get hr' _)
  · apply plain_cons (Value.plain_get hr' _)
    · exact plain_cons (Value.plain_get hr' _) plain_nil (by simp)
    · simp
  · simp

theorem plain_measured (h : (Value.obj o).Plain) : (Value.obj (measured o)).Plain := by
  apply plain_cons (Value.plain_get h _)
  · apply plain_cons (Value.plain_get h _)
    · apply plain_cons (plain_resumable (Value.plain_get h _))
      · exact plain_cons (Value.plain_get h _) plain_nil (by simp)
      · simp
    · simp
  · simp

theorem plain_quiet {action : String} (h : (Value.obj o).Plain) : (Value.obj (quietEvent action o)).Plain :=
  plain_flagged trivial (plain_measured h) (by simp [measured])

theorem plain_refused {action reason : String} (h : (Value.obj o).Plain) :
    (Value.obj (refusedEvent action o reason)).Plain := by
  rw [refusedEvent, List.append_assoc]
  apply plain_flagged (plain_text _)
  · exact plain_cons trivial (plain_measured h) (by simp [measured])
  · simp [measured]

theorem plain_interrupted {latest : Dict} (h : (Value.obj latest).Plain) :
    (Value.obj (interruptedEvent latest)).Plain := by
  apply plain_flagged (Value.plain_get h _)
  · apply plain_cons (plain_text _)
    · exact plain_cons (Value.plain_get h _) plain_nil (by simp)
    · simp
  · simp

theorem plain_final {latest : Dict} (h : (Value.obj latest).Plain) (success : Bool) (error : Option String) :
    (Value.obj (finalEvent latest success error)).Plain := by
  rw [finalEvent, List.append_assoc]
  cases success with
  | true =>
    apply plain_flagged (Value.plain_get h _)
    · exact plain_cons (Value.plain_get h _) plain_nil (by simp)
    · simp
  | false =>
    apply plain_flagged (Value.plain_get h _)
    · apply plain_cons (Value.plain_get h _)
      · exact plain_cons trivial plain_nil (by simp)
      · simp
    · simp

theorem plain_reconciled {latest : Dict} (h : (Value.obj latest).Plain) (ho : (Value.obj o).Plain) :
    (Value.obj (reconciledEvent latest o)).Plain := by
  apply plain_flagged (Value.plain_get h _)
  · exact plain_cons (Value.plain_get ho _) plain_nil (by simp)
  · simp

theorem plain_unreconciled {latest : Dict} {reason : String} (h : (Value.obj latest).Plain) (ho : (Value.obj o).Plain) :
    (Value.obj (unreconciledEvent latest o reason)).Plain := by
  apply plain_flagged (Value.plain_get h _)
  · apply plain_cons (plain_text _)
    · apply plain_cons (Value.plain_get ho _)
      · apply plain_cons (Value.plain_get ho _)
        · exact plain_cons (Value.plain_get ho _) plain_nil (by simp)
        · simp
      · simp
    · simp
  · simp

/-- The vetoes and the unknown owners are rows of the measurement. -/
def PlainClassified (c : Classified) : Prop :=
  (Value.obj c.authoritative).Plain ∧ ∀ row ∈ c.unknown, (Value.obj row).Plain

theorem plain_classifyRows {scope : Scope} {author : Author} {at' : Value} {acc : Classified}
    {blocker : String × Value} (hacc : PlainClassified acc) (hrows : blocker.2.Plain) :
    PlainClassified (classifyRows host scope author at' acc blocker) := by
  have hplain := plain_rowsOf hrows
  rw [classifyRows]
  constructor
  · dsimp only
    split
    · exact hacc.1
    · exact Value.plain_put hacc.1 (plain_asRows (fun row hrow => hplain row (List.mem_of_mem_filter hrow)))
  · intro row hrow
    rcases List.mem_append.mp hrow with hrow | hrow
    · exact hacc.2 row hrow
    · exact hplain row (List.mem_of_mem_filter hrow)

theorem plain_classify {scope : Scope} {author : Author} (h : (Value.obj o).Plain) :
    PlainClassified (classifyBlockers host o scope author) := by
  have hblockers := Value.plain_obj.mp (plain_dictOf (Value.plain_get h "blockers"))
  have hfold : ∀ (bs : Dict) (acc : Classified), (∀ b ∈ bs, b.2.Plain) → PlainClassified acc →
      PlainClassified (bs.foldl (classifyRows host scope author (o.get "observed_at")) acc) := by
    intro bs
    induction bs with
    | nil => exact fun acc _ hacc => hacc
    | cons b bs ih =>
      intro acc hbs hacc
      exact ih _ (fun c hc => hbs c (List.mem_cons_of_mem _ hc)) (plain_classifyRows hacc (hbs b List.mem_cons_self))
  have hswept := hfold _ ⟨[], []⟩ hblockers.2 ⟨plain_nil, fun row hrow => absurd hrow List.not_mem_nil⟩
  rw [classifyBlockers]
  refine ⟨?_, hswept.2⟩
  dsimp only
  split
  · exact hswept.1
  · apply Value.plain_put hswept.1
    rw [Value.plain_arr]
    exact fun w hw => plain_itemsOf (Value.plain_get h "errors") w (List.mem_of_mem_filter hw)

theorem plain_scopeAudit (h : (Value.obj override).Plain) : (Value.obj (scopeAudit override o)).Plain := by
  rw [scopeAudit]
  split
  · apply plain_cons (plain_bool _)
    · apply plain_cons (Value.plain_get h _)
      · exact plain_cons trivial plain_nil (by simp)
      · simp
    · rw [scopeName]
      simp only [List.map_cons, List.map_nil, List.mem_cons, List.not_mem_nil, or_false, not_or]
      split
      · decide
      · split
        · decide
        · split <;> decide
  · exact plain_nil

theorem plain_ownershipAudit (h : (Value.obj override).Plain) (ho : (Value.obj o).Plain) :
    (Value.obj (ownershipAudit host override o)).Plain := by
  have hclassified : PlainClassified (classifyBlockers host o (requestedScope override) (authorOf override)) :=
    plain_classify ho
  rw [ownershipAudit]
  split
  · apply plain_cons (plain_text _)
    · exact plain_cons (Value.plain_arr.mpr (fun w hw => absurd hw List.not_mem_nil)) plain_nil (by simp)
    · simp
  · split
    · apply plain_cons (Value.plain_get h _)
      · apply plain_cons (plain_bool _)
        · apply plain_cons (plain_text _)
          · refine plain_cons (Value.plain_arr.mpr (fun w hw => ?_)) plain_nil (by simp)
            rcases List.mem_append.mp hw with hw | hw
            · obtain ⟨f, hf, hw⟩ := List.mem_flatMap.mp hw
              exact plain_itemsOf ((Value.plain_obj.mp hclassified.1).2 f hf) w hw
            · obtain ⟨row, hrow, rfl⟩ := List.mem_map.mp hw
              exact hclassified.2 row hrow
          · simp
        · simp
      · simp
    · apply plain_cons (plain_text _)
      · refine plain_cons ?_ plain_nil (by simp)
        split
        · exact plain_asRows hclassified.2
        · exact hclassified.1
      · simp

/-- The keys of an audit: who decided, in which scope, over what. -/
theorem audit_keys (host : Host β) (override o : Dict) :
    (∀ name ∈ (scopeAudit override o).map Prod.fst, name ∈ ["backend_only", "godot_only", "semantic_only", "cpu_only",
      "deployment_attempt_id", "deployment_controller_identity"]) ∧
    ∀ name ∈ (ownershipAudit host override o).map Prod.fst, name ∈ ["coordinated_owners", "acknowledge_unknown",
      "override_scope", "affected_ownership"] := by
  constructor
  · rw [scopeAudit]
    split
    · intro name hname
      simp only [List.map_cons, List.map_nil, List.mem_cons, List.not_mem_nil, or_false] at hname
      rcases hname with rfl | rfl | rfl
      · rw [scopeName]
        split
        · decide
        · split
          · decide
          · split <;> decide
      · decide
      · decide
    · exact fun name hname => absurd hname List.not_mem_nil
  · rw [ownershipAudit]
    split
    · intro name hname
      simp only [List.map_cons, List.map_nil, List.mem_cons, List.not_mem_nil, or_false] at hname
      rcases hname with rfl | rfl <;> decide
    · split
      · intro name hname
        simp only [List.map_cons, List.map_nil, List.mem_cons, List.not_mem_nil, or_false] at hname
        rcases hname with rfl | rfl | rfl | rfl <;> decide
      · intro name hname
        simp only [List.map_cons, List.map_nil, List.mem_cons, List.not_mem_nil, or_false] at hname
        rcases hname with rfl | rfl <;> decide

theorem plain_append {d : Dict} (hd : (Value.obj d).Plain) (he : (Value.obj e).Plain)
    (hapart : ∀ name ∈ d.map Prod.fst, name ∉ e.map Prod.fst) : (Value.obj (d ++ e)).Plain := by
  rw [Value.plain_obj] at hd he ⊢
  constructor
  · rw [List.map_append]
    refine List.nodup_append.mpr ⟨hd.1, he.1, ?_⟩
    rintro x hx y hy rfl
    exact hapart x hx hy
  · intro f hf
    rcases List.mem_append.mp hf with hf | hf
    · exact hd.2 f hf
    · exact he.2 f hf

theorem plain_audited {action : String} (h : (Value.obj override).Plain) (ho : (Value.obj o).Plain) :
    (Value.obj (auditedEvent host action override o)).Plain := by
  obtain ⟨hscope, hownership⟩ := audit_keys host override o
  rw [auditedEvent, List.append_assoc]
  apply plain_flagged (plain_text _)
  · refine plain_cons ?_ (plain_measured ho) (by simp [measured])
    apply plain_append
    · apply plain_append
      · apply plain_cons (Value.plain_get h _)
        · apply plain_cons (Value.plain_get h _)
          · exact plain_cons (Value.plain_get h _) plain_nil (by simp)
          · simp
        · simp
      · exact plain_scopeAudit h
      · intro name hname hmem
        have hin := hscope name hmem
        simp only [List.map_cons, List.map_nil, List.mem_cons, List.not_mem_nil, or_false] at hname
        rcases hname with rfl | rfl | rfl <;> revert hin <;> decide
    · exact plain_ownershipAudit h ho
    · intro name hname hmem
      have hown := hownership name hmem
      rw [List.map_append] at hname
      rcases List.mem_append.mp hname with hname | hname
      · simp only [List.map_cons, List.map_nil, List.mem_cons, List.not_mem_nil, or_false] at hname
        rcases hname with rfl | rfl | rfl <;> revert hown <;> decide
      · have hin := hscope name hname
        simp only [List.mem_cons, List.not_mem_nil, or_false] at hin
        rcases hin with rfl | rfl | rfl | rfl | rfl | rfl <;> revert hown <;> decide
  · simp [measured]

theorem plain_completed (he : (Value.obj e).Plain) (hj : (Value.obj j).Plain) (hfirst : e.find "prior_event_id" = none)
    (eventId now : String) : (Value.obj (completed j e eventId now)).Plain := by
  have hput : (Value.obj ((e.put "event_id" (.str eventId)).put "at" (.str now))).Plain :=
    Value.plain_put (Value.plain_put he trivial) trivial
  rw [completed]
  split
  · next last hlast =>
    have hlastPlain : last.Plain :=
      plain_itemsOf (Value.plain_get hj "events") last (List.mem_of_getLast? hlast)
    apply Value.plain_put hput
    cases last with
    | obj d => exact Value.plain_get hlastPlain _
    | _ => trivial
  · rw [Dict.pop_absent]
    · exact hput
    · rw [Dict.find_put_other (by decide), Dict.find_put_other (by decide), hfirst]

theorem plain_appended {c : Dict} (hj : (Value.obj j).Plain) (hc : (Value.obj c).Plain) :
    (Value.obj (appended j c)).Plain := by
  rw [appended]
  apply Value.plain_put _ hc
  apply Value.plain_put hj
  rw [Value.plain_arr]
  intro w hw
  rcases List.mem_append.mp hw with hw | hw
  · exact plain_itemsOf (Value.plain_get hj "events") w hw
  · rw [List.mem_singleton.mp hw]
    exact hc

theorem plain_chained (hj : (Value.obj j).Plain) : (Value.obj (chained host j)).Plain :=
  Value.plain_put hj (plain_chainFrom host _ _ _ _)

end AItelier.Deployment
