import AItelier.Lib.Entries

namespace AItelier.Lib

variable {α ν : Type*} [DecidableEq α] [DecidableEq ν]

inductive Regex (α ν : Type*)
  | empty
  | one (p : α → Bool)
  | seq (a b : Regex α ν)
  | alt (a b : Regex α ν)
  | star (a : Regex α ν)
  | group (name : ν) (a : Regex α ν)
  | ref (name : ν)

namespace Regex

/-- What the groups have captured. -/
abbrev Captures (α ν : Type*) := Entries ν (List α)

/-- A text of its own. -/
def lit (c : α) : Regex α ν := one (fun x => decide (x = c))

def plus (a : Regex α ν) : Regex α ν := seq a (star a)

/-- As often as it goes, and then less often. An iteration takes at least one character. -/
def again (step : List α → Captures α ν → List (List α × Captures α ν)) :
    Nat → List α → Captures α ν → List (List α × Captures α ν)
  | 0, s, caps => [(s, caps)]
  | n + 1, s, caps =>
    (step s caps).flatMap (fun o => if o.1.length < s.length then again step n o.1 o.2 else []) ++ [(s, caps)]

/-- The ways to match the start of a text, in the order in which they are tried: what is
left of it, and the captures. -/
def outcomes : Regex α ν → List α → Captures α ν → List (List α × Captures α ν)
  | empty, s, caps => [(s, caps)]
  | one _, [], _ => []
  | one p, c :: s, caps => if p c then [(s, caps)] else []
  | seq a b, s, caps => (outcomes a s caps).flatMap (fun o => outcomes b o.1 o.2)
  | alt a b, s, caps => outcomes a s caps ++ outcomes b s caps
  | star a, s, caps => again (outcomes a) s.length s caps
  | group name a, s, caps =>
    (outcomes a s caps).map (fun o => (o.1, Entries.set o.2 name (s.take (s.length - o.1.length))))
  | ref name, s, caps =>
    match Entries.get caps name with
    | some t => if t.isPrefixOf s then [(s.drop t.length, caps)] else []
    | none => []

/-- The captures of the first way to match a whole text. -/
def fullmatch (r : Regex α ν) (s : List α) : Option (Captures α ν) :=
  ((outcomes r s []).find? (fun o => o.1.isEmpty)).map Prod.snd

/-- An expression matches a text, and takes the captures before it to those after it. -/
inductive Matches : Regex α ν → Captures α ν → List α → Captures α ν → Prop
  | empty {caps : Captures α ν} : Matches empty caps [] caps
  | one {p : α → Bool} {c : α} {caps : Captures α ν} (h : p c = true) : Matches (one p) caps [c] caps
  | seq {a b : Regex α ν} {s t : List α} {caps mid out : Captures α ν} (ha : Matches a caps s mid)
      (hb : Matches b mid t out) : Matches (seq a b) caps (s ++ t) out
  | left {a b : Regex α ν} {s : List α} {caps out : Captures α ν} (h : Matches a caps s out) : Matches
      (alt a b) caps s out
  | right {a b : Regex α ν} {s : List α} {caps out : Captures α ν} (h : Matches b caps s out) : Matches
      (alt a b) caps s out
  | stop {a : Regex α ν} {caps : Captures α ν} : Matches (star a) caps [] caps
  | more {a : Regex α ν} {s t : List α} {caps mid out : Captures α ν} (ha : Matches a caps s mid) (hs : s ≠ [])
      (hrest : Matches (star a) mid t out) : Matches (star a) caps (s ++ t) out
  | group {name : ν} {a : Regex α ν} {s : List α} {caps out : Captures α ν} (h : Matches a caps s out) :
      Matches (group name a) caps s (Entries.set out name s)
  | ref {name : ν} {s : List α} {caps : Captures α ν} (h : Entries.get caps name =
      some s) : Matches (ref name) caps s caps

variable {r a : Regex α ν} {s rest : List α} {caps out : Captures α ν}

/-- The iterations that are tried are those that match. -/
theorem mem_again
    (ha : ∀ s caps rest out, (rest, out) ∈ outcomes a s caps ↔ ∃ t, s = t ++ rest ∧ Matches a caps t out)
    {n : Nat} (hn : s.length ≤ n) :
    (rest, out) ∈ again (outcomes a) n s caps ↔ ∃ t, s = t ++ rest ∧ Matches (star a) caps t out := by
  induction n generalizing s caps with
  | zero =>
    have hs : s = [] := List.length_eq_zero_iff.mp (by omega)
    subst hs
    rw [again, List.mem_singleton]
    constructor
    · intro h
      cases h
      exact ⟨[], rfl, .stop⟩
    · rintro ⟨t, ht, hmatch⟩
      obtain ⟨rfl, rfl⟩ := List.append_eq_nil_iff.mp ht.symm
      generalize hnil : ([] : List α) = t at hmatch
      cases hmatch with
      | stop => rfl
      | more _ hs _ => exact absurd (List.append_eq_nil_iff.mp hnil.symm).1 hs
  | succ n ih =>
    rw [again, List.mem_append, List.mem_flatMap, List.mem_singleton]
    constructor
    · rintro (⟨⟨s', mid⟩, hfirst, hmore⟩ | hstop)
      · simp only at hmore
        split at hmore
        · next hshorter =>
          obtain ⟨t, rfl, hmatch⟩ := (ha s caps s' mid).mp hfirst
          obtain ⟨u, rfl, hrest⟩ := (ih (by omega)).mp hmore
          refine ⟨t ++ u, (List.append_assoc _ _ _).symm, .more hmatch ?_ hrest⟩
          rintro rfl
          exact absurd hshorter (Nat.lt_irrefl _)
        · exact absurd hmore List.not_mem_nil
      · cases hstop
        exact ⟨[], rfl, .stop⟩
    · rintro ⟨t, rfl, hmatch⟩
      cases hmatch with
      | stop => exact .inr rfl
      | @more _ t u _ mid _ hfirst hne hrest =>
        refine .inl ⟨(u ++ rest, mid), (ha _ _ _ _).mpr ⟨t, List.append_assoc _ _ _, hfirst⟩, ?_⟩
        have hshorter : (u ++ rest).length < (t ++ u ++ rest).length := by
          have := List.length_pos_iff.mpr hne
          simp only [List.length_append]
          omega
        simp only [if_pos hshorter]
        exact (ih (by omega)).mpr ⟨u, rfl, hrest⟩

/-- The ways that are tried are the matches of a start of the text. -/
theorem mem_outcomes : (rest, out) ∈ outcomes r s caps ↔ ∃ t, s = t ++ rest ∧ Matches r caps t out := by
  induction r generalizing s caps rest out with
  | empty =>
    rw [outcomes, List.mem_singleton]
    constructor
    · intro h
      cases h
      exact ⟨[], rfl, .empty⟩
    · rintro ⟨t, rfl, hmatch⟩
      cases hmatch
      rfl
  | one p =>
    constructor
    · intro h
      cases s with
      | nil => exact absurd h List.not_mem_nil
      | cons c s =>
        rw [outcomes] at h
        split at h
        · next hp =>
          cases List.mem_singleton.mp h
          exact ⟨[c], rfl, .one hp⟩
        · exact absurd h List.not_mem_nil
    · rintro ⟨t, rfl, hmatch⟩
      cases hmatch with
      | one hp =>
        rw [List.singleton_append, outcomes, if_pos hp]
        exact List.mem_singleton_self _
  | seq a b iha ihb =>
    rw [outcomes, List.mem_flatMap]
    constructor
    · rintro ⟨⟨s', mid⟩, hfirst, hsecond⟩
      obtain ⟨t, rfl, hmatch⟩ := iha.mp hfirst
      obtain ⟨u, rfl, hrest⟩ := ihb.mp hsecond
      exact ⟨t ++ u, (List.append_assoc _ _ _).symm, .seq hmatch hrest⟩
    · rintro ⟨t, rfl, hmatch⟩
      cases hmatch with
      | @seq _ _ t u _ mid _ hfirst hsecond =>
        exact ⟨(u ++ rest, mid), iha.mpr ⟨t, List.append_assoc _ _ _, hfirst⟩, ihb.mpr ⟨u, rfl, hsecond⟩⟩
  | alt a b iha ihb =>
    rw [outcomes, List.mem_append, iha, ihb]
    constructor
    · rintro (⟨t, hs, hmatch⟩ | ⟨t, hs, hmatch⟩)
      · exact ⟨t, hs, .left hmatch⟩
      · exact ⟨t, hs, .right hmatch⟩
    · rintro ⟨t, hs, hmatch⟩
      cases hmatch with
      | left h => exact .inl ⟨t, hs, h⟩
      | right h => exact .inr ⟨t, hs, h⟩
  | star a iha =>
    rw [outcomes]
    exact mem_again (fun s caps rest out => iha) (Nat.le_refl _)
  | group name a iha =>
    rw [outcomes, List.mem_map]
    have htaken (t rest : List α) : (t ++ rest).take ((t ++ rest).length - rest.length) = t := by
      rw [List.length_append, Nat.add_sub_cancel]
      exact List.take_left
    constructor
    · rintro ⟨⟨s', mid⟩, hfirst, hout⟩
      cases hout
      obtain ⟨t, rfl, hmatch⟩ := iha.mp hfirst
      rw [htaken]
      exact ⟨t, rfl, .group hmatch⟩
    · rintro ⟨t, rfl, hmatch⟩
      cases hmatch with
      | @group _ _ _ _ mid hfirst =>
        refine ⟨(rest, mid), iha.mpr ⟨t, rfl, hfirst⟩, ?_⟩
        rw [htaken]
  | ref name =>
    rw [outcomes]
    constructor
    · intro h
      split at h
      · next t hcaptured =>
        split at h
        · next hstart =>
          cases List.mem_singleton.mp h
          obtain ⟨u, rfl⟩ := List.isPrefixOf_iff_prefix.mp hstart
          rw [List.drop_left]
          exact ⟨t, rfl, .ref hcaptured⟩
        · exact absurd h List.not_mem_nil
      · exact absurd h List.not_mem_nil
    · rintro ⟨t, rfl, hmatch⟩
      cases hmatch with
      | ref hcaptured =>
        have hstart : t.isPrefixOf (t ++ rest) = true := List.isPrefixOf_iff_prefix.mpr (List.prefix_append t rest)
        rw [hcaptured]
        simp only [hstart, if_true, List.drop_left]
        exact List.mem_singleton_self _

theorem matches_of_fullmatch (h : fullmatch r s = some out) : Matches r [] s out := by
  obtain ⟨⟨rest, out'⟩, hfind, rfl⟩ := Option.map_eq_some_iff.mp h
  have hrest : rest = [] := by simpa using List.find?_some hfind
  obtain ⟨t, ht, hmatch⟩ := mem_outcomes.mp (List.mem_of_find?_eq_some hfind)
  rw [hrest, List.append_nil] at ht
  exact ht ▸ hmatch

/-- A text that some way matches is matched. -/
theorem fullmatch_isSome (h : Matches r [] s out) : (fullmatch r s).isSome := by
  rw [fullmatch, Option.isSome_map, List.find?_isSome]
  exact ⟨([], out), mem_outcomes.mpr ⟨s, (List.append_nil s).symm, h⟩, rfl⟩

omit [DecidableEq α] in
/-- A repeated character. -/
theorem matches_star_one {p : α → Bool} :
    Matches (.star (.one p)) caps s out ↔ out = caps ∧ ∀ c ∈ s, p c = true := by
  constructor
  · intro h
    generalize hr : star (one p) = r at h
    induction h with
    | stop => exact ⟨rfl, fun c hc => absurd hc List.not_mem_nil⟩
    | more ha _ _ _ ihrest =>
      cases hr
      cases ha with
      | one hp =>
        obtain ⟨hout, hall⟩ := ihrest rfl
        refine ⟨hout, fun c hc => ?_⟩
        rcases List.mem_cons.mp hc with rfl | hc
        · exact hp
        · exact hall c hc
    | _ => cases hr
  · rintro ⟨rfl, hall⟩
    induction s with
    | nil => exact .stop
    | cons c s ih =>
      obtain ⟨hc, hall⟩ := List.forall_mem_cons.mp hall
      exact .more (.one hc) (List.cons_ne_nil c []) (ih hall)

end Regex

end AItelier.Lib
