import AItelier.Deployment.Records

namespace AItelier.Deployment

open AItelier.Lib

variable {β : Type} {host : Host β} {j e o latest last : Dict} {room : Nat}

/-- The journal can be written where `room` frames are left. -/
def Writable (room : Nat) (j : Dict) : Prop := (Value.obj j).frames ≤ room

instance : Decidable (Writable room j) := inferInstanceAs (Decidable (_ ≤ _))

/-- The values can stand in an event of a journal that can be written. -/
def Fitting (room : Nat) (e : Dict) : Prop := ∀ f ∈ e, f.2.frames + 3 ≤ room

theorem fitting_append {e' : Dict} (h : Fitting room e) (h' : Fitting room e') : Fitting room (e ++ e') :=
  List.forall_mem_append.mpr ⟨h, h'⟩

theorem fitting_cons {name : String} {v : Value} (hv : v.frames + 3 ≤ room) (h : Fitting room e) :
    Fitting room ((name, v) :: e) := List.forall_mem_cons.mpr ⟨hv, h⟩

theorem fitting_nil : Fitting room [] := fun _ hf => absurd hf List.not_mem_nil

theorem fitting_flagged {action s : String} {p u : Bool} (hroom : 3 ≤ room) :
    Fitting room (flagged (.str action) s p u) := by
  intro f hf
  simp only [flagged, List.mem_cons, List.not_mem_nil, or_false] at hf
  rcases hf with rfl | rfl | rfl | rfl | rfl <;> exact hroom

/-- What a journal that can be written holds, can be written. -/
theorem Writable.room_pos (h : Writable room j) : ∃ n, room = n + 1 ∧ ∀ f ∈ j, f.2.frames ≤ n := by
  cases room with
  | zero =>
    rw [Writable, Value.frames] at h
    exact absurd h (Nat.not_succ_le_zero _)
  | succ n => exact ⟨n, rfl, Value.frames_obj_le.mp h⟩

theorem Writable.event (h : Writable room j) {ev : Dict} (hev : .obj ev ∈ events j) (name : String) :
    (Dict.get ev name).frames + 3 ≤ room := by
  obtain ⟨n, rfl, hfields⟩ := h.room_pos
  have hevents := Value.frames_get hfields "events"
  rw [events] at hev
  cases hlist : j.get "events" with
  | arr items =>
    rw [hlist] at hev hevents
    obtain _ | n := n
    · exact absurd hevents (Nat.not_succ_le_zero _)
    have hitem := Value.frames_arr_le.mp hevents _ hev
    obtain _ | n := n
    · exact absurd hitem (Nat.not_succ_le_zero _)
    exact Nat.add_le_add_right (Value.frames_get (Value.frames_obj_le.mp hitem) name) 3
  | _ => rw [hlist] at hev; exact absurd hev List.not_mem_nil

theorem Last.within (h : Last host j latest last) (hj : Writable room j) : 3 ≤ room :=
  Nat.le_of_add_left_le (hj.event (List.mem_of_getLast? h.atEnd) "action")

theorem digest_frames {v : Value} (h : v = .null ∨ State.isHexText 64 v = true) : v.frames = 0 := by
  rcases h with rfl | h
  · rfl
  · obtain ⟨s, rfl, -⟩ := isHexText_iff.mp h
    rfl

theorem fitting_digest {v : Value} (hroom : 3 ≤ room) (h : v = .null ∨ State.isHexText 64 v = true) :
    Fitting room [("inventory_digest", v)] := by
  apply fitting_cons _ fitting_nil
  rw [digest_frames h, Nat.zero_add]
  exact hroom

theorem fitting_text {name : String} (hroom : 3 ≤ room) (text : String) : Fitting room [(name, .str text)] :=
  fitting_cons (Nat.zero_add 3 ▸ hroom) fitting_nil

theorem fitting_interrupted (h : Last host j latest last) (hpending : (latest.get "pending").isTrue = true)
    (hroom : 3 ≤ room) : Fitting room (interruptedEvent latest) := by
  obtain ⟨-, action, digest, -, hact, -, -, hdig, -⟩ := h.pending hpending
  rw [interruptedEvent, hact, hdig]
  exact fitting_append (fitting_flagged hroom) (fitting_append (fitting_text hroom _) (fitting_text hroom digest))

theorem fitting_final (h : Last host j latest last) (hpending : (latest.get "pending").isTrue = true)
    (hroom : 3 ≤ room) (success : Bool) (error : Option String) : Fitting room (finalEvent latest success error) := by
  obtain ⟨-, action, digest, -, hact, -, -, hdig, -⟩ := h.pending hpending
  rw [finalEvent, hact, hdig]
  apply fitting_append (fitting_append (fitting_flagged hroom) (fitting_text hroom digest))
  split
  · exact fitting_nil
  · exact fitting_text hroom _

theorem fitting_completed (he : Fitting room e) (hj : Writable room j) (hroom : 3 ≤ room) (eventId now : String) :
    Fitting room (completed j e eventId now) := by
  obtain ⟨n, rfl⟩ := Nat.exists_eq_add_of_le' hroom
  have hput : ∀ f ∈ (e.put "event_id" (.str eventId)).put "at" (.str now), f.2.frames ≤ n :=
    Value.frames_put
      (Value.frames_put (fun f hf => Nat.le_of_add_le_add_right (he f hf)) (Value.frames_text eventId n) _)
      (Value.frames_text now n) _
  have hfits : ∀ d : Dict, (∀ f ∈ d, f.2.frames ≤ n) → Fitting (n + 3) d :=
    fun d hd f hf => Nat.add_le_add_right (hd f hf) 3
  rw [completed]
  split
  · next last hlast =>
    refine hfits _ (Value.frames_put hput ?_ _)
    cases last with
    | obj ev => exact Nat.le_of_add_le_add_right (hj.event (List.mem_of_getLast? hlast) "event_id")
    | _ => exact Nat.zero_le n
  · exact hfits _ (Value.frames_pop hput _)

theorem Writable.appended (hj : Writable room j) (he : Fitting room e) (hroom : 3 ≤ room) :
    Writable room (appended j e) := by
  obtain ⟨n, rfl⟩ := Nat.exists_eq_add_of_le' hroom
  have hfields : ∀ f ∈ j, f.2.frames ≤ n + 2 := Value.frames_obj_le.mp hj
  have hevent : (Value.obj e).frames ≤ n + 1 :=
    Value.frames_obj_le.mpr (fun f hf => Nat.le_of_add_le_add_right (he f hf))
  apply Value.frames_obj_le.mpr
  apply Value.frames_put _ (Nat.le_succ_of_le hevent)
  apply Value.frames_put hfields
  apply Value.frames_arr_le.mpr
  intro v hv
  rcases List.mem_append.mp hv with hv | hv
  · have hevents := Value.frames_get hfields "events"
    rw [events] at hv
    cases hlist : j.get "events" with
    | arr items =>
      rw [hlist] at hv hevents
      exact Value.frames_arr_le.mp hevents v hv
    | _ => rw [hlist] at hv; exact absurd hv List.not_mem_nil
  · rw [List.mem_singleton.mp hv]
    exact hevent

theorem frames_chainFrom (host : Host β) (id : Value) (i : Nat) (prev : Value) (es : List Value) :
    ∀ v ∈ chainFrom host id i prev es, ∃ s, v = .str s := by
  induction es generalizing i prev with
  | nil => exact fun v hv => absurd hv List.not_mem_nil
  | cons ev es ih =>
    intro v hv
    rcases List.mem_cons.mp hv with rfl | hv
    · exact ⟨_, rfl⟩
    · exact ih _ _ v hv

theorem Writable.chained (hj : Writable room j) (hroom : 2 ≤ room) : Writable room (chained host j) := by
  obtain ⟨n, rfl⟩ := Nat.exists_eq_add_of_le' hroom
  apply Value.frames_obj_le.mpr
  apply Value.frames_put (Value.frames_obj_le.mp hj)
  apply Value.frames_arr_le.mpr
  intro v hv
  obtain ⟨s, rfl⟩ := frames_chainFrom host _ _ _ _ v hv
  exact Nat.zero_le n

/-- A journal that can be written is written. -/
theorem persistJournal_ok (hj : Writable room j) (hroom : 2 ≤ room) (d : Disk β) :
    persistJournal host room d j = (.ok (), written host d j) := by
  have hchained : Writable room (chained host j) := hj.chained hroom
  obtain ⟨n, rfl⟩ := Nat.exists_eq_add_of_le' hroom
  have hfields : ∀ f ∈ chained host j, f.2.frames ≤ n + 1 := Value.frames_obj_le.mp hchained
  have hends : ∀ v ∈ [(chain host j).head?, (chain host j).getLast?], (v.getD .null).frames ≤ n + 1 := by
    intro v hv
    simp only [List.mem_cons, List.not_mem_nil, or_false] at hv
    have hmem : ∀ w, v = some w → w ∈ chain host j := by
      rintro w rfl
      rcases hv with h | h
      · exact List.mem_of_head? h.symm
      · exact List.mem_of_getLast? h.symm
    cases v with
    | none => exact Nat.zero_le _
    | some w =>
      obtain ⟨s, rfl⟩ := frames_chainFrom host _ _ _ _ w (hmem w rfl)
      exact Nat.zero_le _
  have hcheckpoint : (checkpoint host (chained host j)).frames ≤ n + 2 := by
    have hget : (chained host j).get "chain" = .arr (chain host j) := Dict.get_put_self
    rw [checkpoint, hget]
    apply Value.frames_obj_le.mpr
    intro f hf
    simp only [List.mem_cons, List.not_mem_nil, or_false] at hf
    rcases hf with rfl | rfl | rfl | rfl | rfl | rfl
    · exact Nat.zero_le _
    · exact Value.frames_get hfields _
    · exact Nat.zero_le _
    · exact hends _ List.mem_cons_self
    · exact hends _ (List.mem_cons_of_mem _ List.mem_cons_self)
    · exact Nat.zero_le _
  rw [persistJournal, if_neg (Nat.not_lt.mpr hcheckpoint), if_neg (Nat.not_lt.mpr hchained)]

/-- Each refusal to write ends the call, and leaves the journal as it was. -/
theorem persistJournal_cases (host : Host β) (room : Nat) (d : Disk β) (j : Dict) :
    persistJournal host room d j = (.ok (), written host d j) ∨
      (persistJournal host room d j).1 = .error .recursion ∧
        (persistJournal host room d j).2.read .journal = d.read .journal := by
  rw [persistJournal]
  split
  · exact .inr ⟨rfl, rfl⟩
  · split
    · exact .inr ⟨rfl, Folder.read_put_other (by decide)⟩
    · exact .inl rfl

end AItelier.Deployment
