import AItelier.Lib.Run
import AItelier.Router.Candidates

namespace AItelier.Router

open AItelier.Lib

variable {u : Setup} {available : String → Bool} {failed : List String} {g g' x y : Gateway} {e : Event} {f : Failure}

/-- No usable candidate from a position on is free to be called. -/
def Parked (u : Setup) (available : String → Bool) (i : Nat) : Prop :=
  ∀ p d, i ≤ p → u.candidates[p]? = some d → u.usable d = true → available d = false

def Unusable (u : Setup) (i : Nat) : Prop := ∀ p d, i ≤ p → u.candidates[p]? = some d → u.usable d = false

/-- The first candidate from a position on that is usable and free to be called. -/
def FirstFree (u : Setup) (available : String → Bool) (i q : Nat) : Prop :=
  i ≤ q ∧ (∃ c, u.candidates[q]? = some c ∧ u.usable c = true ∧ available c = true) ∧
    ∀ p d, i ≤ p → p < q → u.candidates[p]? = some d → u.usable d = true → available d = false

theorem usableFrom_spec (u : Setup) (available : String → Bool) (firstKeyed : Option Nat) {i : Nat} {rest : List String}
    (h : u.candidates.drop i = rest) :
    (∃ q, u.usableFrom available i firstKeyed rest = some q ∧ FirstFree u available i q) ∨
      (Parked u available i ∧ ((∃ q, firstKeyed = some q ∧ u.usableFrom available i firstKeyed rest = some q) ∨
        firstKeyed = none ∧ ∃ q c, u.usableFrom available i firstKeyed rest = some q ∧ i ≤ q ∧
          u.candidates[q]? = some c ∧ u.usable c = true)) ∨
      (firstKeyed = none ∧ u.usableFrom available i firstKeyed rest = none ∧ Unusable u i) := by
  induction rest generalizing i firstKeyed with
  | nil =>
    have hout : u.candidates.length ≤ i := List.drop_eq_nil_iff.mp h
    have hnone (p : Nat) (hp : i ≤ p) : u.candidates[p]? = none := List.getElem?_eq_none (by omega)
    cases firstKeyed with
    | none =>
      refine .inr (.inr ⟨rfl, rfl, fun p d hp hd => ?_⟩)
      rw [hnone p hp] at hd
      cases hd
    | some q =>
      refine .inr (.inl ⟨fun p d hp hd => ?_, .inl ⟨q, rfl, rfl⟩⟩)
      rw [hnone p hp] at hd
      cases hd
  | cons c rest ih =>
    have hc : u.candidates[i]? = some c := by
      rw [← List.head?_drop, h, List.head?_cons]
    have hrest : u.candidates.drop (i + 1) = rest := by
      rw [← List.tail_drop, h, List.tail_cons]
    have hsplit (p : Nat) (d : String) (hp : i ≤ p) (hd : u.candidates[p]? = some d) : d = c ∨ i + 1 ≤ p := by
      rcases Nat.eq_or_lt_of_le hp with rfl | hp
      · rw [hc] at hd
        exact .inl (Option.some.inj hd).symm
      · exact .inr hp
    rw [Setup.usableFrom]
    split
    · next husable =>
      split
      · next hfree =>
        refine .inl ⟨i, rfl, Nat.le_refl i, ⟨c, hc, husable, hfree⟩, fun p d hp hpi => ?_⟩
        omega
      · next hbusy =>
        have hparked : available c = false := Bool.eq_false_iff.mpr hbusy
        rcases ih (firstKeyed.or (some i)) hrest with
          ⟨q, hq, hle, hfree, hbefore⟩ | ⟨hall, hfirst⟩ | ⟨hfirst, -, -⟩
        · refine .inl ⟨q, hq, by omega, hfree, fun p d hp hpq hd hd' => ?_⟩
          rcases hsplit p d hp hd with rfl | hp
          · exact hparked
          · exact hbefore p d hp hpq hd hd'
        · refine .inr (.inl ⟨fun p d hp hd hd' => ?_, ?_⟩)
          · rcases hsplit p d hp hd with rfl | hp
            · exact hparked
            · exact hall p d hp hd hd'
          · rcases hfirst with ⟨q, hq, hresult⟩ | ⟨hnone, -⟩
            · cases firstKeyed with
              | none =>
                cases hq
                exact .inr ⟨rfl, i, c, hresult, Nat.le_refl i, hc, husable⟩
              | some q' =>
                cases hq
                exact .inl ⟨q, rfl, hresult⟩
            · cases firstKeyed <;> cases hnone
        · cases firstKeyed <;> cases hfirst
    · next hunusable =>
      have hno : u.usable c = false := Bool.eq_false_iff.mpr hunusable
      rcases ih firstKeyed hrest with
        ⟨q, hq, hle, hfree, hbefore⟩ | ⟨hall, hfirst⟩ | ⟨hfirst, hresult, hall⟩
      · refine .inl ⟨q, hq, by omega, hfree, fun p d hp hpq hd hd' => ?_⟩
        rcases hsplit p d hp hd with rfl | hp
        · exact absurd hd' hunusable
        · exact hbefore p d hp hpq hd hd'
      · refine .inr (.inl ⟨fun p d hp hd hd' => ?_, ?_⟩)
        · rcases hsplit p d hp hd with rfl | hp
          · exact absurd hd' hunusable
          · exact hall p d hp hd hd'
        · refine hfirst.imp id ?_
          rintro ⟨hnone, q, d, hq, hle, hd, hd'⟩
          exact ⟨hnone, q, d, hq, by omega, hd, hd'⟩
      · refine .inr (.inr ⟨hfirst, hresult, fun p d hp hd => ?_⟩)
        rcases hsplit p d hp hd with rfl | hp
        · exact hno
        · exact hall p d hp hd

/-- Where the search degrades, nothing free is left, and a candidate without a key only where no
other is left at all. -/
theorem nextUsable_spec (u : Setup) (available : String → Bool) (start : Nat) :
    start ≤ u.nextUsable available start ∧
      (∀ c, u.candidates[u.nextUsable available start]? = some c → u.usable c = false → Unusable u start) ∧
      ∀ p d, start ≤ p → p < u.nextUsable available start → u.candidates[p]? = some d → u.usable d = true →
        available d = false := by
  unfold Setup.nextUsable
  rcases usableFrom_spec u available none (rfl : u.candidates.drop start = _) with
    ⟨q, hq, hle, ⟨c, hc, husable, -⟩, hbefore⟩ | ⟨hall, hfirst⟩ | ⟨-, hnone, hall⟩
  · rw [hq]
    refine ⟨hle, fun d hd hd' => ?_, hbefore⟩
    rw [Option.getD_some, hc] at hd
    cases hd
    exact absurd husable (Bool.eq_false_iff.mp hd')
  · rcases hfirst with ⟨q, hq, -⟩ | ⟨-, q, c, hq, hle, hc, husable⟩
    · cases hq
    · rw [hq]
      refine ⟨hle, fun d hd hd' => ?_, fun p d hp _ => hall p d hp⟩
      rw [Option.getD_some, hc] at hd
      cases hd
      exact absurd husable (Bool.eq_false_iff.mp hd')
  · rw [hnone]
    exact ⟨Nat.le_refl start, fun _ _ _ => hall, fun p d hp hlt => absurd hlt (by rw [Option.getD_none]; omega)⟩

theorem nextUsable_lt (available : String → Bool) {start : Nat} (h : start < u.candidates.length) :
    u.nextUsable available start < u.candidates.length := by
  unfold Setup.nextUsable
  rcases usableFrom_spec u available none (rfl : u.candidates.drop start = _) with
    ⟨q, hq, -, ⟨c, hc, -, -⟩, -⟩ | ⟨-, ⟨q, hq, -⟩ | ⟨-, q, c, hq, -, hc, -⟩⟩ | ⟨-, hnone, -⟩
  · rw [hq]
    exact (List.getElem?_eq_some_iff.mp hc).1
  · cases hq
  · rw [hq]
    exact (List.getElem?_eq_some_iff.mp hc).1
  · rw [hnone]
    exact h

theorem nextUsable_passed {start p : Nat} {d : String} (hp : start ≤ p) (hlt : p < u.nextUsable available start)
    (hd : u.candidates[p]? = some d) (hd' : u.usable d = true) (hfree : available d = true) : d ∈ failed := by
  rw [(nextUsable_spec u available start).2.2 p d hp hlt hd hd'] at hfree
  cases hfree

/-- The walk ends on a candidate that has not failed, or past the last, and has passed no free
one that had not failed. -/
theorem skipTried_spec (u : Setup) (available : String → Bool) (failed : List String) {fuel start : Nat}
    (hfuel : u.candidates.length ≤ u.nextUsable available start + fuel) :
    start ≤ u.skipTried available failed fuel (u.nextUsable available start) ∧
      (∀ c, u.candidates[u.skipTried available failed fuel (u.nextUsable available start)]? = some c →
        c ∉ failed ∧ (u.usable c = false →
          Unusable u (u.skipTried available failed fuel (u.nextUsable available start)))) ∧
      ∀ p d, start ≤ p → p < u.skipTried available failed fuel (u.nextUsable available start) →
        u.candidates[p]? = some d → u.usable d = true → available d = true → d ∈ failed := by
  induction fuel generalizing start with
  | zero =>
    refine ⟨(nextUsable_spec u available start).1, fun c hc => ?_, fun p d => nextUsable_passed⟩
    rw [Setup.skipTried, List.getElem?_eq_none (by omega)] at hc
    cases hc
  | succ fuel ih =>
    obtain ⟨hle, hdegraded, -⟩ := nextUsable_spec u available start
    rw [Setup.skipTried]
    cases hc : u.candidates[u.nextUsable available start]? with
    | none =>
      refine ⟨hle, fun c hc' => ?_, fun p d => nextUsable_passed⟩
      rw [hc] at hc'
      cases hc'
    | some c =>
      simp only
      split
      · next hin =>
        have hnext := (nextUsable_spec u available (u.nextUsable available start + 1)).1
        obtain ⟨hfar, htarget, hrest⟩ := @ih (u.nextUsable available start + 1) (by omega)
        refine ⟨by omega, htarget, fun p d hp hlt hd hd' hfree => ?_⟩
        rcases Nat.lt_trichotomy p (u.nextUsable available start) with hlow | rfl | hhigh
        · exact nextUsable_passed hp hlow hd hd' hfree
        · rw [hc] at hd
          cases hd
          exact hin
        · exact hrest p d hhigh hlt hd hd' hfree
      · next hout =>
        refine ⟨hle, fun d hd => ?_, fun p d => nextUsable_passed⟩
        rw [hc] at hd
        cases hd
        exact ⟨hout, fun hno p d hp => hdegraded c hc hno p d (by omega)⟩

/-- The gateway is bound to the candidate at its position. -/
def Placed (u : Setup) (g : Gateway) : Prop := u.candidates[g.candidateIx]? = some g.activeModel

/-- The endpoints that have failed for a gateway once the one it is bound to has. -/
def Gateway.tried (g : Gateway) : List String := g.failovers ++ [g.activeModel]

/-- An endpoint is declared to hold more than a window, or declares none. Nothing is known to hold
more than a window that is not declared. -/
def More (provs : Entries String Provider) (here : Option Int) (c : String) : Prop :=
  here ≠ none ∧ noLarger here (endpointWindow c provs) = false

theorem More.larger {provs : Entries String Provider} {here w : Int} {c : String} (h : More provs (some here) c)
    (hw : endpointWindow c provs = some w) : here < w := by
  have hnot := of_decide_eq_false (hw ▸ h.2 : noLarger (some here) (some w) = false)
  omega

/-- The first later candidate that holds more than the one a gateway is bound to. -/
def FirstBigger (u : Setup) (g : Gateway) (j : Nat) (c : String) : Prop :=
  ∃ provs, u.provs = some provs ∧ g.candidateIx < j ∧ u.candidates[j]? = some c ∧
    More provs (endpointWindow g.activeModel provs) c ∧
      ∀ p d, g.candidateIx < p → p < j → u.candidates[p]? = some d → ¬ More provs (endpointWindow g.activeModel provs) d

/-- A move leaves a failed endpoint for a later position. -/
structure Moved (u : Setup) (g g' : Gateway) : Prop where
  later : g.candidateIx < g'.candidateIx
  placed : Placed u g'
  recorded : g'.failovers = g.tried
  thinking : g'.suppressThinking = g.suppressThinking

/-- The one retry at a position drops the keys that turn thinking off. -/
structure Retried (g g' : Gateway) : Prop where
  stays : g'.candidateIx = g.candidateIx ∧ g'.activeModel = g.activeModel ∧ g'.failovers = g.failovers
  once : g.suppressThinking = true ∧ g'.suppressThinking = false

/-- The binding is as it was. -/
def Bound (g g' : Gateway) : Prop :=
  g'.candidateIx = g.candidateIx ∧ g'.activeModel = g.activeModel ∧ g'.failovers = g.failovers

def Overflows (e : Event) : Prop := ∃ f, e.answer = .error f ∧ f.kind = .contextWindow

/-- Every later candidate that can serve and is not cooling down has failed. -/
def Spent (u : Setup) (g : Gateway) (e : Event) : Prop :=
  ∀ p d, g.candidateIx < p → u.candidates[p]? = some d → u.usable d = true →
    endpointAvailable e.cooldown e.now d = true → d ∈ g.tried

/-- Where an outage may take a gateway. -/
structure Walked (u : Setup) (g g' : Gateway) : Prop extends Moved u g g' where
  untried : g'.activeModel ∉ g.tried
  degraded : u.usable g'.activeModel = false → Unusable u g'.candidateIx

theorem noteEndpointSpent_other {cooldown : Cooldown} {now : Nat} {name d : String} (h : d ≠ name) :
    endpointAvailable (noteEndpointSpent cooldown now name f) now d = endpointAvailable cooldown now d := by
  have hother (reopens : Nat) (v : Nat) :
      Entries.get (if reopens ≤ now then cooldown else Entries.set cooldown name v) d = Entries.get cooldown d := by
    split
    · rfl
    · exact Entries.get_set_other (Ne.symm h)
  have hget : Entries.get (noteEndpointSpent cooldown now name f) d = Entries.get cooldown d := hother _ _
  rw [endpointAvailable, endpointAvailable, hget]

theorem mem_tried {d : String} : d ∈ g.tried ↔ d ∈ g.activeModel :: g.failovers := by
  rw [Gateway.tried, List.mem_append, List.mem_singleton, List.mem_cons, or_comm]

theorem advance_spec (u : Setup) (available : String → Bool) (now : Nat) (g : Gateway) :
    (∃ g', advance u available now g = .again g' ∧ Walked u g g') ∨
      (advance u available now g = .raised .exhausted g ∧
        ∀ p d, g.candidateIx < p → u.candidates[p]? = some d → u.usable d = true → available d = true →
          d ∈ g.tried) := by
  have hfuel : u.candidates.length ≤ u.nextUsable available (g.candidateIx + 1) + u.candidates.length :=
    Nat.le_add_left _ _
  obtain ⟨hlater, htarget, hpassed⟩ := skipTried_spec u available (g.activeModel :: g.failovers) hfuel
  unfold advance
  simp only
  rw [if_neg (by omega)]
  split
  · next c hc =>
    obtain ⟨hout, hdegraded⟩ := htarget c hc
    refine .inl ⟨_, rfl, ⟨by exact hlater, hc, rfl, rfl⟩, fun hin => hout (mem_tried.mp hin), hdegraded⟩
  · next hnone =>
    refine .inr ⟨rfl, fun p d hp hd hd' hfree => mem_tried.mpr (hpassed p d hp ?_ hd hd' hfree)⟩
    have hend := List.getElem?_eq_none_iff.mp hnone
    obtain ⟨hlt, -⟩ := List.getElem?_eq_some_iff.mp hd
    omega

theorem failover_spec (u : Setup) (e : Event) (f : Failure) (g : Gateway) :
    (∃ g', failover u e f g = .again g' ∧ Walked u g g') ∨
      (∃ g', failover u e f g = .raised .exhausted g' ∧ Bound g g' ∧ Spent u g e) ∨
        ∃ g', failover u e f g = .raised .burst g' ∧ Bound g g' := by
  unfold failover
  simp only
  generalize hhit : (if f.kind = .rateLimit ∧
    f.quotaExhausted = false then { g with burstHits := g.burstHits + 1 } else g) = hit
  have hbound : Bound g hit ∧ hit.suppressThinking = g.suppressThinking := by
    subst hhit
    split
    · exact ⟨⟨rfl, rfl, rfl⟩, rfl⟩
    · exact ⟨⟨rfl, rfl, rfl⟩, rfl⟩
  obtain ⟨⟨hix, hactive, hfailed⟩, hthinking⟩ := hbound
  have htried : hit.tried = g.tried := by
    rw [Gateway.tried, Gateway.tried, hactive, hfailed]
  rw [← hactive]
  split
  · exact .inr (.inr ⟨hit, rfl, hix, hactive, hfailed⟩)
  · generalize hcooldown : (if (f.quotaExhausted || f.spentCredit) = true then
      noteEndpointSpent e.cooldown e.now hit.activeModel f else e.cooldown) = cooldown
    rcases advance_spec u (endpointAvailable cooldown e.now) e.now hit with ⟨g', hagain, hwalk⟩ | ⟨hraised, hspent⟩
    · refine .inl ⟨g', hagain, ⟨?_, hwalk.placed, ?_, ?_⟩, ?_, hwalk.degraded⟩
      · exact hix ▸ hwalk.later
      · exact hwalk.recorded.trans htried
      · exact hwalk.thinking.trans hthinking
      · exact htried ▸ hwalk.untried
    · refine .inr (.inl ⟨hit, hraised, ⟨hix, hactive, hfailed⟩, fun p d hp hd hd' hfree => ?_⟩)
      by_cases hsame : d = g.activeModel
      · rw [hsame, mem_tried]
        exact List.mem_cons_self
      · -- Only the endpoint that is left was parked since.
        have hstill : endpointAvailable cooldown e.now d = true := by
          rw [← hfree, ← hcooldown]
          split
          · exact noteEndpointSpent_other (hactive ▸ hsame)
          · rfl
        exact htried ▸ hspent p d (hix ▸ hp) hd hd' hstill

/-- The search for a larger window finds the first candidate that has one. -/
theorem contextFrom_eq_some {provs : Entries String Provider} {here : Option Int} {i j : Nat} {c : String}
    {rest : List String}
    (h : u.candidates.drop i = rest) :
    contextFrom provs here i rest = some (j, c) ↔
      i ≤ j ∧ u.candidates[j]? = some c ∧ More provs here c ∧
        ∀ p d, i ≤ p → p < j → u.candidates[p]? = some d → ¬ More provs here d := by
  induction rest generalizing i with
  | nil =>
    have hout : u.candidates.length ≤ i := List.drop_eq_nil_iff.mp h
    constructor
    · intro h
      cases h
    · rintro ⟨hle, hc, -⟩
      obtain ⟨hlt, -⟩ := List.getElem?_eq_some_iff.mp hc
      omega
  | cons d rest ih =>
    have hd : u.candidates[i]? = some d := by
      rw [← List.head?_drop, h, List.head?_cons]
    have hrest : u.candidates.drop (i + 1) = rest := by
      rw [← List.tail_drop, h, List.tail_cons]
    rw [contextFrom]
    by_cases hmore : More provs here d
    · rw [if_neg (Bool.eq_false_iff.mp hmore.2), if_neg hmore.1]
      constructor
      · intro heq
        cases heq
        exact ⟨Nat.le_refl _, hd, hmore, fun p _ hp hlt => by omega⟩
      · rintro ⟨hle, hc, -, hbefore⟩
        rcases Nat.eq_or_lt_of_le hle with rfl | hlt
        · rw [hd] at hc
          cases hc
          rfl
        · exact absurd hmore (hbefore i d (Nat.le_refl i) hlt hd)
    · split
      · rw [ih hrest]
        constructor
        · rintro ⟨hle, hc, hbig, hbefore⟩
          refine ⟨by omega, hc, hbig, fun p d' hp hlt hd' => ?_⟩
          rcases Nat.eq_or_lt_of_le hp with heq | hp
          · rw [← heq, hd] at hd'
            cases hd'
            exact hmore
          · exact hbefore p d' hp hlt hd'
        · rintro ⟨hle, hc, hbig, hbefore⟩
          rcases Nat.eq_or_lt_of_le hle with rfl | hlt
          · rw [hd] at hc
            cases hc
            exact absurd hbig hmore
          · exact ⟨hlt, hc, hbig, fun p d' hp => hbefore p d' (by omega)⟩
      · next hlarger =>
        split
        · next hnone =>
          constructor
          · intro h
            cases h
          · rintro ⟨-, -, hbig, -⟩
            exact absurd hnone hbig.1
        · next hsome => exact absurd ⟨hsome, Bool.eq_false_iff.mpr hlarger⟩ hmore

theorem failoverContext_spec (u : Setup) (g : Gateway) :
    (∃ j c g', FirstBigger u g j c ∧ failoverContext u g = some g' ∧ Moved u g g' ∧ g'.candidateIx = j ∧
      g'.activeModel = c) ∨
      (failoverContext u g = none ∧ ∀ j c, ¬ FirstBigger u g j c) := by
  unfold failoverContext
  cases hprovs : u.provs with
  | none =>
    refine .inr ⟨rfl, fun j c h => ?_⟩
    obtain ⟨provs, hsome, -⟩ := h
    rw [hprovs] at hsome
    cases hsome
  | some provs =>
    have hspec (j : Nat) (c : String) :
        contextFrom provs (endpointWindow g.activeModel provs) (g.candidateIx + 1)
          (u.candidates.drop (g.candidateIx + 1)) =
          some (j, c) ↔ FirstBigger u g j c := by
      rw [contextFrom_eq_some rfl]
      constructor
      · rintro ⟨hle, hc, hbig, hbefore⟩
        exact ⟨provs, hprovs, hle, hc, hbig, hbefore⟩
      · rintro ⟨provs', hprovs', hle, hc, hbig, hbefore⟩
        rw [hprovs] at hprovs'
        cases hprovs'
        exact ⟨hle, hc, hbig, hbefore⟩
    simp only
    split
    · next j c hfound =>
      have hfirst := (hspec j c).mp hfound
      obtain ⟨_, -, hlater, hc, -⟩ := id hfirst
      exact .inl ⟨j, c, _, hfirst, rfl, ⟨hlater, hc, rfl, rfl⟩, rfl, rfl⟩
    · next hnone =>
      refine .inr ⟨rfl, fun j c hfirst => ?_⟩
      rw [(hspec j c).mpr hfirst] at hnone
      cases hnone

theorem FirstBigger.unique {i j : Nat} {c d : String} (hi : FirstBigger u g i c) (hj : FirstBigger u g j d) :
    i = j ∧ c = d := by
  obtain ⟨provs, hprovs, hil, hic, him, hib⟩ := hi
  obtain ⟨provs', hprovs', hjl, hjc, hjm, hjb⟩ := hj
  rw [hprovs] at hprovs'
  cases hprovs'
  rcases Nat.lt_trichotomy i j with hlt | rfl | hlt
  · exact absurd him (hjb i c hil hlt hic)
  · rw [hic] at hjc
    exact ⟨rfl, Option.some.inj hjc⟩
  · exact absurd hjm (hib j d hjl hlt hjc)

/-- The answer leaves too little of the window for the next turn. -/
def Squeezes (u : Setup) (g : Gateway) (e : Event) : Prop :=
  ∃ n, e.answer = .response n ∧ squeezed u g n e.maxOutputTokens = true

theorem handle_failover {f : Failure} (h : failover u e f g = .again g') : Walked u g g' := by
  rcases failover_spec u e f g with ⟨x, hx, hwalk⟩ | ⟨x, hx, -⟩ | ⟨x, hx, -⟩
  · rw [h] at hx
    cases hx
    exact hwalk
  · rw [h] at hx
    cases hx
  · rw [h] at hx
    cases hx

/-- A call goes on after an outage, after an overflow, or once without the keys that turn thinking off. -/
theorem handle_again (h : handle u g e = .again g') :
    Walked u g g' ∨ (Overflows e ∧ Moved u g g' ∧ FirstBigger u g g'.candidateIx g'.activeModel) ∨ Retried g g' := by
  unfold handle at h
  split at h
  · cases h
  · next f hanswer =>
    split at h
    · exact .inl (handle_failover h)
    · exact .inl (handle_failover h)
    · next hkind =>
      rcases failoverContext_spec u g with ⟨j, c, x, hfirst, hx, hmoved, rfl, rfl⟩ | ⟨hnone, -⟩
      · rw [hx] at h
        cases h
        exact .inr (.inl ⟨⟨f, hanswer, hkind⟩, hmoved, hfirst⟩)
      · rw [hnone] at h
        cases h
    · split at h
      · exact .inl (handle_failover h)
      · split at h
        · next hretry =>
          cases h
          exact .inr (.inr ⟨⟨rfl, rfl, rfl⟩, hretry.1, rfl⟩)
        · cases h

theorem handle_overflow {j : Nat} {c : String} (he : Overflows e) (h : FirstBigger u g j c) :
    ∃ g', handle u g e = .again g' ∧ Moved u g g' ∧ g'.candidateIx = j ∧ g'.activeModel = c := by
  obtain ⟨f, hanswer, hkind⟩ := he
  rcases failoverContext_spec u g with ⟨i, d, x, hfirst, hx, hmoved, rfl, rfl⟩ | ⟨-, hnone⟩
  · obtain ⟨hi, hd⟩ := hfirst.unique h
    refine ⟨x, ?_, hmoved, hi, hd⟩
    unfold handle
    rw [hanswer]
    simp only [hkind, hx]
  · exact absurd h (hnone j c)

theorem handle_raised {why : Raised} (h : handle u g e = .raised why g') :
    Bound g g' ∧ (why = .exhausted → Spent u g e) := by
  have hfailover (f : Failure) (h : failover u e f g = .raised why g') : Bound g g' ∧
      (why = .exhausted → Spent u g e) := by
    rcases failover_spec u e f g with ⟨x, hx, -⟩ | ⟨x, hx, hbound, hspent⟩ | ⟨x, hx, hbound⟩
    · rw [h] at hx
      cases hx
    · rw [h] at hx
      cases hx
      exact ⟨hbound, fun _ => hspent⟩
    · rw [h] at hx
      cases hx
      exact ⟨hbound, fun h => by cases h⟩
  unfold handle at h
  split at h
  · cases h
  · split at h
    · exact hfailover _ h
    · exact hfailover _ h
    · split at h
      · cases h
      · cases h
        exact ⟨⟨rfl, rfl, rfl⟩, fun h => by cases h⟩
    · split at h
      · exact hfailover _ h
      · split at h
        · cases h
        · cases h
          exact ⟨⟨rfl, rfl, rfl⟩, fun h => by cases h⟩

theorem handle_answered (h : handle u g e = .answered g') :
    Bound g g' ∨ (Squeezes u g e ∧ FirstBigger u g g'.candidateIx g'.activeModel ∧ Placed u g' ∧
      g'.failovers = g.tried) := by
  have hfailover (f : Failure) : failover u e f g ≠ .answered g' := by
    intro h
    rcases failover_spec u e f g with ⟨x, hx, -⟩ | ⟨x, hx, -⟩ | ⟨x, hx, -⟩ <;>
    · rw [h] at hx
      cases hx
  unfold handle at h
  split at h
  · next n hanswer =>
    cases h
    unfold rebindIfOutOfHeadroom
    split
    · next hsqueezed =>
      rcases failoverContext_spec u g with ⟨j, c, x, hfirst, hx, hmoved, rfl, rfl⟩ | ⟨hnone, -⟩
      · rw [hx]
        exact .inr ⟨⟨n, hanswer, hsqueezed⟩, hfirst, hmoved.placed, hmoved.recorded⟩
      · rw [hnone]
        exact .inl ⟨rfl, rfl, rfl⟩
    · exact .inl ⟨rfl, rfl, rfl⟩
  · split at h
    · exact absurd h (hfailover _)
    · exact absurd h (hfailover _)
    · split at h <;> cases h
    · split at h
      · exact absurd h (hfailover _)
      · split at h <;> cases h

/-- A candidate that the gateway should not be taken to: it has failed, or it cannot serve and one that
can, and has not failed, comes after it. -/
def Faulty (u : Setup) (g : Gateway) (j : Nat) (c : String) : Prop :=
  c ∈ g.tried ∨ u.usable c = false ∧ ∃ d ∈ u.candidates.drop (j + 1), u.usable d = true ∧ d ∉ g.tried

/-- A later candidate that is declared to hold more than the one the gateway is bound to, or declares
no window. -/
def Larger (u : Setup) (g : Gateway) (j : Nat) (c : String) : Prop :=
  g.candidateIx < j ∧ u.candidates[j]? = some c ∧ ∃ provs ∈ u.provs, More provs (endpointWindow g.activeModel provs) c

/-- No faulty candidate is the first of those that hold more. -/
def Preceded (u : Setup) (g : Gateway) : Prop :=
  ∀ j c, Larger u g j c → Faulty u g j c → ∃ k < j, ∃ d, Larger u g k d ∧ ¬ Faulty u g k d

theorem FirstBigger.larger {j : Nat} {c : String} (h : FirstBigger u g j c) : Larger u g j c := by
  obtain ⟨provs, hprovs, hlater, hc, hmore, -⟩ := h
  exact ⟨hlater, hc, provs, hprovs, hmore⟩

theorem FirstBigger.least {i j : Nat} {c d : String} (h : FirstBigger u g j c) (hi : Larger u g i d) : j ≤ i := by
  obtain ⟨provs, hprovs, -, -, -, hbefore⟩ := h
  obtain ⟨hlater, hd, provs', hprovs', hmore⟩ := hi
  cases hprovs.symm.trans hprovs'
  by_contra hlt
  exact hbefore i d hlater (by omega) hd hmore

theorem Larger.first {j : Nat} {c : String} (h : Larger u g j c) : ∃ i d, FirstBigger u g i d := by
  induction j using Nat.strongRecOn generalizing c with
  | ind j ih =>
    by_cases hfirst : ∃ i d, i < j ∧ Larger u g i d
    · obtain ⟨i, d, hlt, hlarger⟩ := hfirst
      exact ih i hlt hlarger
    · obtain ⟨hlater, hc, provs, hprovs, hmore⟩ := h
      refine ⟨j, c, provs, hprovs, hlater, hc, hmore, fun p d hp hlt hd hd' => ?_⟩
      exact hfirst ⟨p, d, hlt, hp, hd, provs, hprovs, hd'⟩

/-- The candidate a larger window is looked for in is not faulty. -/
theorem preceded_iff : Preceded u g ↔ ∀ j c, FirstBigger u g j c → ¬ Faulty u g j c := by
  constructor
  · intro h j c hfirst hfaulty
    obtain ⟨k, hlt, d, hlarger, -⟩ := h j c hfirst.larger hfaulty
    have := hfirst.least hlarger
    omega
  · intro h j c hlarger hfaulty
    obtain ⟨i, d, hfirst⟩ := hlarger.first
    have hsound := h i d hfirst
    refine ⟨i, Nat.lt_of_le_of_ne (hfirst.least hlarger) ?_, d, hfirst.larger, hsound⟩
    rintro rfl
    obtain ⟨-, hd, -⟩ := hfirst.larger
    obtain ⟨-, hc, -⟩ := hlarger
    cases hd.symm.trans hc
    exact hsound hfaulty

theorem not_faulty_iff {j : Nat} {c : String} : ¬ Faulty u g j c ↔
    c ∉ g.tried ∧ (u.usable c = false → ∀ p d, j < p → u.candidates[p]? = some d → u.usable d = true →
      d ∈ g.tried) := by
  rw [Faulty, not_or]
  refine and_congr_right (fun _ => ?_)
  constructor
  · intro h hno p d hp hd hserves
    by_contra hout
    refine h ⟨hno, d, List.mem_of_getElem? (i := p - (j + 1)) ?_, hserves, hout⟩
    rw [List.getElem?_drop, show j + 1 + (p - (j + 1)) = p by omega]
    exact hd
  · rintro h ⟨hno, d, hin, hserves, hout⟩
    obtain ⟨i, hi⟩ := List.mem_iff_getElem?.mp hin
    rw [List.getElem?_drop] at hi
    exact hout (h hno _ d (by omega) hi hserves)

/-- A gateway is bound to an endpoint that has not failed, and that serves unless none behind it does. -/
structure Good (u : Setup) (g : Gateway) : Prop where
  untried : g.activeModel ∉ g.failovers
  serves : u.usable g.activeModel = false →
    ∀ p d, g.candidateIx < p → u.candidates[p]? = some d → u.usable d = true → d ∈ g.failovers

theorem Good.of_bound (h : Good u g) (hbound : Bound g g') : Good u g' := by
  obtain ⟨hix, hactive, hfailed⟩ := hbound
  constructor
  · rw [hactive, hfailed]
    exact h.untried
  · rw [hix, hactive, hfailed]
    exact h.serves

theorem Preceded.good (h : Preceded u g) (hfirst : FirstBigger u g g'.candidateIx g'.activeModel)
    (hrecorded : g'.failovers = g.tried) :
    Good u g' := by
  obtain ⟨huntried, hserves⟩ := not_faulty_iff.mp (preceded_iff.mp h _ _ hfirst)
  exact ⟨hrecorded ▸ huntried, hrecorded ▸ hserves⟩

theorem Good.step (h : Good u g) (hsuits : Overflows e → Preceded u g) (hagain : handle u g e = .again g') :
    Good u g' := by
  rcases handle_again hagain with hwalk | ⟨he, hmoved, hfirst⟩ | hretried
  · refine ⟨hwalk.recorded ▸ hwalk.untried, fun hno p d hp hd hd' => ?_⟩
    rw [hwalk.degraded hno p d (by omega) hd] at hd'
    cases hd'
  · exact (hsuits he).good hfirst hmoved.recorded
  · exact h.of_bound hretried.stays

/-- Wherever a larger window is looked for in a call, no faulty candidate is the first. -/
def Orderly (u : Setup) (looks : Gateway → Event → Prop) (g : Gateway) : List Event → Prop
  | [] => True
  | e :: rest => (looks g e → Preceded u g) ∧ ∀ g', handle u g e = .again g' → Orderly u looks g' rest

/-- What happens to a gateway in its life: a call of `_complete_prebuilt`, or of `return_to_earlier`. -/
inductive Turn
  | call (events : List Event)
  | back (now : Nat) (cooldown : Cooldown)

/-- A gateway after a turn, with the endpoints that its calls have attempted. -/
def turn (u : Setup) (s : Gateway × List String) : Turn → Gateway × List String
  | .call events => ((completePrebuilt u s.1 events).gateway, s.2 ++ (attempts u s.1 events).map Gateway.activeModel)
  | .back now cooldown => (returnToEarlier u now cooldown s.1, s.2)

/-- The calls are orderly, at their overflows and where the headroom runs out. -/
def OrderlyTurn (u : Setup) (s : Gateway × List String) : Turn → Prop
  | .call events => Orderly u (fun g e => Overflows e ∨ Squeezes u g e) s.1 events
  | .back _ _ => True

def lifeOf (u : Setup) (now : Nat) (cooldown : Cooldown) (turns : List Turn) : Gateway × List String :=
  run (turn u) (fresh u now cooldown, []) turns

/-- What one attempt and the next have to do with each other. -/
def Follows (g g' : Gateway) : Prop :=
  (g.candidateIx < g'.candidateIx ∧ g'.failovers = g.tried) ∨ Retried g g'

/-- A call that walks as it should: `failovers` names the endpoints that have failed. -/
structure Sensible (u : Setup) (g : Gateway) (past : List String) (events : List Event) : Prop where
  bounded : (attempts u g events).length ≤
    u.candidates.length - g.candidateIx + (if g.suppressThinking then 1 else 0)
  increasing : (attempts u g events).IsChain Follows
  never_again : ∀ x ∈ attempts u g events, x.activeModel ∉ x.failovers
  serves : ∀ x ∈ attempts u g events, u.usable x.activeModel = false →
    ∀ p d, x.candidateIx < p → u.candidates[p]? = some d → u.usable d = true → d ∈ x.failovers
  larger : ∀ x ∈ attempts u g events, ∀ e y, Overflows e → handle u x e = .again y →
    ∃ provs here, u.provs = some provs ∧ endpointWindow x.activeModel provs = some here ∧
      ∀ w, endpointWindow y.activeModel provs = some w → here < w
  exhausted : ∀ before x after, attempts u g events = before ++ x :: after →
    ∀ e y, handle u x e = .raised .exhausted y →
    ∀ p d, x.candidateIx < p → u.candidates[p]? = some d → u.usable d = true →
      endpointAvailable e.cooldown e.now d = true → d ∈ past ++ (before ++ [x]).map Gateway.activeModel

variable {events : List Event} {past : List String} {p : Gateway → Event → Prop}

theorem attempts_head (u : Setup) (g : Gateway) (events : List Event) : ∃ rest, attempts u g events = g :: rest := by
  cases events with
  | nil => exact ⟨[], rfl⟩
  | cons e events =>
    rcases attempts_cons u g e events with ⟨g', -, hrun, -⟩ | ⟨-, hrun, -⟩
    · exact ⟨_, hrun⟩
    · exact ⟨[], hrun⟩

theorem handle_follows (h : handle u g e = .again g') : Follows g g' ∧ (Placed u g → Placed u g') := by
  rcases handle_again h with hwalk | ⟨-, hmoved, -⟩ | hretried
  · exact ⟨.inl ⟨hwalk.later, hwalk.recorded⟩, fun _ => hwalk.placed⟩
  · exact ⟨.inl ⟨hmoved.later, hmoved.recorded⟩, fun _ => hmoved.placed⟩
  · obtain ⟨hix, hactive, -⟩ := hretried.stays
    refine ⟨.inr hretried, fun hplaced => ?_⟩
    rw [Placed, hix, hactive]
    exact hplaced

theorem attempts_chain (u : Setup) (g : Gateway) (events : List Event) : (attempts u g events).IsChain Follows := by
  induction events generalizing g with
  | nil => exact .singleton g
  | cons e events ih =>
    rcases attempts_cons u g e events with ⟨g', hagain, hrun, -⟩ | ⟨-, hrun, -⟩
    · obtain ⟨rest, hrest⟩ := attempts_head u g' events
      have hchain := ih g'
      rw [hrest] at hchain
      rw [hrun, hrest]
      exact List.isChain_cons_cons.mpr ⟨(handle_follows hagain).1, hchain⟩
    · rw [hrun]
      exact .singleton g

theorem attempts_placed (hplaced : Placed u g) : ∀ x ∈ attempts u g events, Placed u x := by
  induction events generalizing g with
  | nil => exact List.forall_mem_singleton.mpr hplaced
  | cons e events ih =>
    rcases attempts_cons u g e events with ⟨g', hagain, hrun, -⟩ | ⟨-, hrun, -⟩
    · rw [hrun]
      exact List.forall_mem_cons.mpr ⟨hplaced, ih ((handle_follows hagain).2 hplaced)⟩
    · rw [hrun]
      exact List.forall_mem_singleton.mpr hplaced

theorem attempts_bounded (hplaced : Placed u g) (events : List Event) :
    (attempts u g events).length ≤ u.candidates.length - g.candidateIx + (if g.suppressThinking then 1 else 0) := by
  induction events generalizing g with
  | nil =>
    obtain ⟨hlt, -⟩ := List.getElem?_eq_some_iff.mp hplaced
    rw [attempts, List.length_singleton]
    omega
  | cons e events ih =>
    obtain ⟨hlt, -⟩ := List.getElem?_eq_some_iff.mp hplaced
    rcases attempts_cons u g e events with ⟨g', hagain, hrun, -⟩ | ⟨-, hrun, -⟩
    · have hplaced' := (handle_follows hagain).2 hplaced
      obtain ⟨hlt', -⟩ := List.getElem?_eq_some_iff.mp hplaced'
      have hrest := ih hplaced'
      have hmove (hlater : g.candidateIx < g'.candidateIx) (hsame : g'.suppressThinking = g.suppressThinking) :
          (attempts u g' events).length + 1 ≤
            u.candidates.length - g.candidateIx + (if g.suppressThinking then 1 else 0) := by
        rw [hsame] at hrest
        omega
      rw [hrun, List.length_cons]
      rcases handle_again hagain with hwalk | ⟨-, hmoved, -⟩ | hretried
      · exact hmove hwalk.later hwalk.thinking
      · exact hmove hmoved.later hmoved.thinking
      · rw [hretried.stays.1, if_neg (Bool.eq_false_iff.mp hretried.once.2)] at hrest
        rw [if_pos hretried.once.1]
        omega
    · rw [hrun, List.length_singleton]
      omega

/-- The endpoints on record are those the gateway came with, and those it has attempted since. -/
theorem attempts_recorded {before after : List Gateway} (h : attempts u g events = before ++ x :: after) :
    ∀ d ∈ x.failovers, d ∈ g.failovers ++ before.map Gateway.activeModel := by
  induction events generalizing g before with
  | nil =>
    obtain ⟨rfl, heq⟩ | ⟨rest, rfl, heq⟩ := List.cons_eq_append_iff.mp h
    · cases heq
      exact fun d hd => List.mem_append_left _ hd
    · exact absurd heq.symm (List.append_ne_nil_of_right_ne_nil rest (List.cons_ne_nil x after))
  | cons e events ih =>
    rcases attempts_cons u g e events with ⟨g', hagain, hrun, -⟩ | ⟨-, hrun, -⟩
    · rw [hrun] at h
      obtain ⟨rfl, heq⟩ | ⟨rest, rfl, heq⟩ := List.cons_eq_append_iff.mp h
      · cases heq
        exact fun d hd => List.mem_append_left _ hd
      · intro d hd
        have hin := ih heq d hd
        rw [List.map_cons, List.mem_append, List.mem_cons]
        rcases List.mem_append.mp hin with hin | hin
        · rcases (handle_follows hagain).1 with ⟨-, hrecorded⟩ | hretried
          · rw [hrecorded, Gateway.tried] at hin
            rcases List.mem_append.mp hin with hin | hin
            · exact .inl hin
            · exact .inr (.inl (List.mem_singleton.mp hin))
          · rw [hretried.stays.2.2] at hin
            exact .inl hin
        · exact .inr (.inr hin)
    · rw [hrun] at h
      obtain ⟨rfl, heq⟩ | ⟨rest, rfl, heq⟩ := List.cons_eq_append_iff.mp h
      · cases heq
        exact fun d hd => List.mem_append_left _ hd
      · exact absurd heq.symm (List.append_ne_nil_of_right_ne_nil rest (List.cons_ne_nil x after))

theorem completePrebuilt_last (hmeets : Orderly u p g events) :
    ∃ before x, attempts u g events = before ++ [x] ∧
      (completePrebuilt u g events = .again x ∨
        ∃ e, completePrebuilt u g events = handle u x e ∧ (∀ y, handle u x e ≠ .again y) ∧ (p x e → Preceded u x)) := by
  induction events generalizing g with
  | nil => exact ⟨[], g, rfl, .inl rfl⟩
  | cons e events ih =>
    rcases attempts_cons u g e events with ⟨g', hagain, hrun, hstands⟩ | ⟨hends, hrun, hstands⟩
    · obtain ⟨before, x, hbefore, hlast⟩ := ih (hmeets.2 g' hagain)
      rw [hrun, hstands]
      exact ⟨g :: before, x, by rw [hbefore, List.cons_append], hlast⟩
    · exact ⟨[], g, hrun, .inr ⟨e, hstands, hends, hmeets.1⟩⟩

theorem attempts_good (hgood : Good u g) (hmeets : Orderly u p g events) (hp : ∀ x e, Overflows e → p x e) :
    ∀ x ∈ attempts u g events, Good u x := by
  induction events generalizing g with
  | nil => exact List.forall_mem_singleton.mpr hgood
  | cons e events ih =>
    rcases attempts_cons u g e events with ⟨g', hagain, hrun, -⟩ | ⟨-, hrun, -⟩
    · rw [hrun]
      have hnext : Good u g' := hgood.step (fun he => hmeets.1 (hp g e he)) hagain
      exact List.forall_mem_cons.mpr ⟨hgood, ih hnext (hmeets.2 g' hagain)⟩
    · rw [hrun]
      exact List.forall_mem_singleton.mpr hgood

theorem fresh_placed (u : Setup) (now : Nat) (cooldown : Cooldown) : Placed u (fresh u now cooldown) := by
  have hlt := nextUsable_lt (endpointAvailable cooldown now) (List.length_pos_iff.mpr u.resolved)
  have hsome := List.getElem?_eq_getElem hlt
  unfold Placed fresh
  simp only
  rw [hsome, Option.getD_some]

theorem fresh_good (u : Setup) (now : Nat) (cooldown : Cooldown) : Good u (fresh u now cooldown) := by
  refine ⟨List.not_mem_nil, fun hno p d _ hd hd' => ?_⟩
  obtain ⟨-, hdegraded, -⟩ := nextUsable_spec u (endpointAvailable cooldown now) 0
  rw [hdegraded _ (fresh_placed u now cooldown) hno p d (Nat.zero_le p) hd] at hd'
  cases hd'

theorem back_spec (u : Setup) (now : Nat) (cooldown : Cooldown) (g : Gateway) :
    Bound g (returnToEarlier u now cooldown g) ∨
      ((returnToEarlier u now cooldown g).failovers = [] ∧ Placed u (returnToEarlier u now cooldown g) ∧
        (returnToEarlier u now cooldown g).candidateIx = u.nextUsable (endpointAvailable cooldown now) 0) := by
  unfold returnToEarlier
  split
  · split
    · exact .inl ⟨rfl, rfl, rfl⟩
    · simp only
      split
      · next c hc =>
        split
        · exact .inl ⟨rfl, rfl, rfl⟩
        · exact .inr ⟨rfl, hc, rfl⟩
      · exact .inl ⟨rfl, rfl, rfl⟩
  · exact .inl ⟨rfl, rfl, rfl⟩

theorem Bound.placed (h : Bound g g') (hplaced : Placed u g) : Placed u g' := by
  obtain ⟨hix, hactive, -⟩ := h
  rw [Placed, hix, hactive]
  exact hplaced

/-- A gateway is bound to a candidate that has not failed, and its record names endpoints that it has
attempted. -/
structure Sound (u : Setup) (s : Gateway × List String) : Prop where
  placed : Placed u s.1
  good : Good u s.1
  recorded : ∀ d ∈ s.1.failovers, d ∈ s.2

theorem Sound.call {s : Gateway × List String} (h : Sound u s)
    (hmeets : Orderly u (fun g e => Overflows e ∨ Squeezes u g e) s.1 events) : Sound u (turn u s (.call events)) := by
  obtain ⟨g, past⟩ := s
  obtain ⟨hplaced, hgood, hpast⟩ := h
  obtain ⟨before, x, hbefore, hlast⟩ := completePrebuilt_last hmeets
  have hin : x ∈ attempts u g events := hbefore ▸ List.mem_append_right before (List.mem_singleton_self x)
  have hx : Good u x := attempts_good hgood hmeets (fun _ _ => .inl) x hin
  have hxplaced : Placed u x := attempts_placed hplaced x hin
  have hrecorded : ∀ d ∈ x.tried, d ∈ past ++ (attempts u g events).map Gateway.activeModel := by
    intro d hd
    rcases List.mem_append.mp hd with hd | hd
    · rcases List.mem_append.mp (attempts_recorded hbefore d hd) with hd | hd
      · exact List.mem_append_left _ (hpast d hd)
      · rw [hbefore, List.map_append]
        exact List.mem_append_right _ (List.mem_append_left _ hd)
    · rw [hbefore, List.map_append]
      exact List.mem_append_right _ (List.mem_append_right _ hd)
  have hstays (y : Gateway) (hbound : Bound x y) : Sound u (y,
      past ++ (attempts u g events).map Gateway.activeModel) := by
    refine ⟨hbound.placed hxplaced, hx.of_bound hbound, fun d hd => hrecorded d ?_⟩
    rw [hbound.2.2] at hd
    exact List.mem_append_left _ hd
  change Sound u ((completePrebuilt u g events).gateway, past ++ (attempts u g events).map Gateway.activeModel)
  rcases hlast with hwaits | ⟨e, he, hends, hsuits⟩
  · rw [hwaits]
    exact hstays x ⟨rfl, rfl, rfl⟩
  · rw [he]
    cases hhandled : handle u x e with
    | again y => exact absurd hhandled (hends y)
    | raised why y => exact hstays y (handle_raised hhandled).1
    | answered y =>
      rcases handle_answered hhandled with hbound | ⟨hsqueezes, hfirst, hyplaced, hyrecorded⟩
      · exact hstays y hbound
      · refine ⟨hyplaced, (hsuits (.inr hsqueezes)).good hfirst hyrecorded, fun d hd => hrecorded d ?_⟩
        rw [Handled.gateway, hyrecorded] at hd
        exact hd

theorem Sound.back {s : Gateway × List String} (h : Sound u s) (now : Nat) (cooldown : Cooldown) :
    Sound u (turn u s (.back now cooldown)) := by
  obtain ⟨g, past⟩ := s
  obtain ⟨hplaced, hgood, hpast⟩ := h
  change Sound u (returnToEarlier u now cooldown g, past)
  rcases back_spec u now cooldown g with hbound | ⟨hempty, hback, hix⟩
  · refine ⟨hbound.placed hplaced, hgood.of_bound hbound, fun d hd => hpast d ?_⟩
    rw [hbound.2.2] at hd
    exact hd
  · refine ⟨hback, ⟨by rw [hempty]; exact List.not_mem_nil, fun hno p d _ hd hd' => ?_⟩, fun d hd => ?_⟩
    · obtain ⟨-, hdegraded, -⟩ := nextUsable_spec u (endpointAvailable cooldown now) 0
      rw [Placed, hix] at hback
      rw [hdegraded _ hback hno p d (Nat.zero_le p) hd] at hd'
      cases hd'
    · rw [hempty] at hd
      exact absurd hd List.not_mem_nil

theorem life_sound {now : Nat} {cooldown : Cooldown} {turns : List Turn}
    (h : Along (OrderlyTurn u) (turn u) (fresh u now cooldown, []) turns) : Sound u (lifeOf u now cooldown turns) := by
  refine run_invariant (I := Sound u) ?_ ⟨fresh_placed u now cooldown, fresh_good u now cooldown,
    fun d hd => absurd hd List.not_mem_nil⟩ h
  rintro s (events | ⟨now, cooldown⟩) hs hok
  · exact hs.call hok
  · exact hs.back now cooldown

/-- Where every attempt is as it should be, the overflows were orderly. -/
theorem orderly_of_attempts (h : ∀ x ∈ attempts u g events, Good u x) :
    Orderly u (fun _ e => Overflows e) g events := by
  induction events generalizing g with
  | nil => trivial
  | cons e events ih =>
    have hnext (g' : Gateway) (hagain : handle u g e = .again g') : ∀ x ∈ attempts u g' events, Good u x := by
      intro x hx
      refine h x ?_
      rw [attempts, hagain]
      exact List.mem_cons_of_mem g hx
    refine ⟨fun he => preceded_iff.mpr (fun j c hfirst => ?_), fun g' hagain => ih (hnext g' hagain)⟩
    obtain ⟨g', hagain, hmoved, rfl, rfl⟩ := handle_overflow he hfirst
    obtain ⟨rest, hrest⟩ := attempts_head u g' events
    have hgood := hnext g' hagain g' (hrest ▸ List.mem_cons_self)
    exact not_faulty_iff.mpr ⟨hmoved.recorded ▸ hgood.untried, hmoved.recorded ▸ hgood.serves⟩

theorem Orderly.imp {looks looks' : Gateway → Event → Prop} (h : ∀ g e, looks' g e → looks g e)
    (horderly : Orderly u looks g events) : Orderly u looks' g events := by
  induction events generalizing g with
  | nil => trivial
  | cons e events ih => exact ⟨fun he => horderly.1 (h g e he), fun g' hagain => ih (horderly.2 g' hagain)⟩

theorem overflow_larger (he : Overflows e) (h : handle u x e = .again y) :
    ∃ provs here, u.provs = some provs ∧ endpointWindow x.activeModel provs = some here ∧
      ∀ w, endpointWindow y.activeModel provs = some w → here < w := by
  obtain ⟨f, hanswer, hkind⟩ := he
  unfold handle at h
  rw [hanswer] at h
  simp only [hkind] at h
  rcases failoverContext_spec u x with ⟨j, c, z, ⟨provs, hprovs, -, -, hmore, -⟩, hz, -, -, hactive⟩ | ⟨hnone, -⟩
  · rw [hz] at h
    cases h
    obtain ⟨here, hhere⟩ := Option.ne_none_iff_exists'.mp hmore.1
    rw [hhere] at hmore
    exact ⟨provs, here, hprovs, hhere, fun w hw => hmore.larger (hactive ▸ hw)⟩
  · rw [hnone] at h
    cases h

/-- The walk of a call is sensible exactly when its overflows are orderly. -/
theorem Sound.sensible_iff {s : Gateway × List String} (h : Sound u s) (events : List Event) :
    Sensible u s.1 s.2 events ↔ Orderly u (fun _ e => Overflows e) s.1 events := by
  obtain ⟨hplaced, hgood, hpast⟩ := h
  constructor
  · intro hsensible
    exact orderly_of_attempts (fun x hx => ⟨hsensible.never_again x hx, hsensible.serves x hx⟩)
  · intro hmeets
    have hall := attempts_good hgood hmeets (fun _ _ => id)
    refine ⟨attempts_bounded hplaced events, attempts_chain u s.1 events, fun x hx => (hall x hx).untried,
      fun x hx => (hall x hx).serves, fun x _ e y => overflow_larger, ?_⟩
    intro before x after hattempts e y hraised p d hp hd hd' hfree
    have hspent := (handle_raised hraised).2 rfl p d hp hd hd' hfree
    rw [List.map_append]
    rcases List.mem_append.mp hspent with hin | hin
    · rcases List.mem_append.mp (attempts_recorded hattempts d hin) with hin | hin
      · exact List.mem_append_left _ (hpast d hin)
      · exact List.mem_append_right _ (List.mem_append_left _ hin)
    · exact List.mem_append_right _ (List.mem_append_right _ hin)

/-- In a life whose turns are orderly, every call walks as it should; and the next call does so exactly
when its overflows are orderly. -/
theorem failover_sensible (u : Setup) (now : Nat) (cooldown : Cooldown) {turns : List Turn}
    (h : Along (OrderlyTurn u) (turn u) (fresh u now cooldown, []) turns) :
    (∀ before events after, turns = before ++ .call events :: after →
      Sensible u (lifeOf u now cooldown before).1 (lifeOf u now cooldown before).2 events) ∧
    ∀ events, Sensible u (lifeOf u now cooldown turns).1 (lifeOf u now cooldown turns).2 events ↔
      Orderly u (fun _ e => Overflows e) (lifeOf u now cooldown turns).1 events := by
  refine ⟨?_, (life_sound h).sensible_iff⟩
  rintro before events after rfl
  obtain ⟨hbefore, hcall⟩ := Along.append.mp h
  exact ((life_sound hbefore).sensible_iff events).mpr (hcall.1.imp (fun _ _ => .inl))

namespace Sample

/-- Two providers declare a window, and one declares none. -/
def setup (candidates : List String) (h : candidates ≠ []) : Setup where
  candidates := candidates
  provs := some [("cloud", ⟨none, none⟩), ("local", ⟨none, some 100⟩), ("mid", ⟨none, some 200⟩)]
  secret := fun _ => none
  enableThinking := true
  resolved := h

def event (answer : Answer) : Event where
  answer := answer
  now := 0
  cooldown := []
  extraBody := false
  maxOutputTokens := 50

def failure (kind : Kind) : Event := event (.error ⟨kind, false, false, false, none⟩)

/-- Where every candidate serves and occurs once, nothing is faulty. -/
theorem preceded {u : Setup} {g : Gateway} (hserves : ∀ c ∈ u.candidates, u.usable c = true)
    (hlater : ∀ c ∈ u.candidates.drop (g.candidateIx + 1), c ∉ g.tried) : Preceded u g := by
  rintro j c ⟨hj, hc, -⟩ (htried | ⟨hno, -⟩)
  · have hin : c ∈ u.candidates.drop (g.candidateIx + 1) := by
      refine List.mem_iff_getElem?.mpr ⟨j - (g.candidateIx + 1), ?_⟩
      rw [List.getElem?_drop, show g.candidateIx + 1 + (j - (g.candidateIx + 1)) = j by omega]
      exact hc
    exact absurd htried (hlater c hin)
  · rw [hserves c (List.mem_of_getElem? hc)] at hno
    cases hno

def chain : Setup := setup ["local/m", "mid/m", "local/n", "cloud/m"] (by decide)

end Sample

/-- A first call is squeezed and moves on at its end; in the second the gateway meets an outage and
then an overflow. -/
theorem failover_sensible_chain :
    Sensible Sample.chain (lifeOf Sample.chain 0 [] [.call [Sample.event (.response (some 90))]]).1
      (lifeOf Sample.chain 0 [] [.call [Sample.event (.response (some 90))]]).2
      [Sample.failure .outage, Sample.failure .contextWindow] := by
  have hfirst : Along (OrderlyTurn Sample.chain) (turn Sample.chain) (fresh Sample.chain 0 [], [])
      [.call [Sample.event (.response (some 90))]] :=
    ⟨⟨fun _ => Sample.preceded (by decide) (by decide), fun _ _ => trivial⟩, trivial⟩
  refine ((failover_sensible Sample.chain 0 [] hfirst).2 _).mpr
    ⟨fun _ => Sample.preceded (by decide) (by decide), fun g' hagain => ⟨fun _ => ?_, fun _ _ => trivial⟩⟩
  have hnext : g' = (handle Sample.chain (lifeOf Sample.chain 0 [] [.call [Sample.event (.response (some 90))]]).1
      (Sample.failure .outage)).gateway := by
    rw [hagain]
    rfl
  rw [hnext]
  exact Sample.preceded (by decide) (by decide)

/-- An overflow takes the gateway back to the endpoint that failed first. -/
theorem failover_returns : ¬ ∀ (u : Setup) (now : Nat) (cooldown : Cooldown) (turns : List Turn) (events : List Event),
    Sensible u (lifeOf u now cooldown turns).1 (lifeOf u now cooldown turns).2 events := by
  intro h
  have hsensible := h (Sample.setup ["cloud/m", "local/m", "cloud/m"] (by decide)) 0 [] []
    [Sample.failure .outage, Sample.failure .contextWindow]
  have hsome : (attempts (Sample.setup ["cloud/m", "local/m", "cloud/m"] (by decide))
      (fresh (Sample.setup ["cloud/m", "local/m", "cloud/m"] (by decide)) 0 [])
      [Sample.failure .outage, Sample.failure .contextWindow]).any (fun x =>
        decide (x.activeModel ∈ x.failovers)) = true := by
    decide
  obtain ⟨x, hx, hin⟩ := List.any_eq_true.mp hsome
  exact hsensible.never_again x hx (of_decide_eq_true hin)

end AItelier.Router
