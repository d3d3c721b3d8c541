import Mathlib.Data.Fintype.Card
import Mathlib.Data.Fintype.Order
import Mathlib.Data.List.Chain
import Mathlib.Logic.Relation

namespace AItelier.Lib

open Relation

variable {κ : Type*} {r : κ → κ → Prop} {s : List κ} {a b x : κ}

/-- No element reaches itself. -/
def Acyclic (r : κ → κ → Prop) : Prop := ∀ a, ¬ TransGen r a a

/-- A set that an edge cannot leave. -/
def DownClosed (r : κ → κ → Prop) (s : List κ) : Prop := ∀ a ∈ s, ∀ b, r a b → b ∈ s

theorem DownClosed.reach (h : DownClosed r s) (hr : TransGen r a b) (ha : a ∈ s) : b ∈ s := by
  induction hr with
  | single hab => exact h a ha _ hab
  | tail _ hbc ih => exact h _ ih _ hbc

/-- Every element of `s` reaches only elements of `s`, and none itself. -/
structure Settled (r : κ → κ → Prop) (s : List κ) : Prop where
  closed : DownClosed r s
  acyclic : ∀ a ∈ s, ¬ TransGen r a a

theorem Settled.nil : Settled r [] := ⟨by simp [DownClosed], by simp⟩

/-- An element outside whose edges all lead inside can be taken in. -/
theorem Settled.snoc (h : Settled r s) (hx : x ∉ s) (hin : ∀ b, r x b → b ∈ s) : Settled r (s ++ [x]) := by
  refine ⟨?_, ?_⟩
  · intro a ha b hab
    rcases List.mem_append.mp ha with ha | ha
    · exact List.mem_append_left _ (h.closed a ha b hab)
    · rw [List.mem_singleton.mp ha] at hab
      exact List.mem_append_left _ (hin b hab)
  · intro a ha hcycle
    rcases List.mem_append.mp ha with ha | ha
    · exact h.acyclic a ha hcycle
    · rw [List.mem_singleton.mp ha] at hcycle
      -- the first step enters `s`, and nothing leads out of it again
      obtain ⟨b, hxb, hbx⟩ := TransGen.head'_iff.mp hcycle
      rcases reflTransGen_iff_eq_or_transGen.mp hbx with rfl | hbx
      · exact hx (hin _ hxb)
      · exact hx (h.closed.reach hbx (hin b hxb))

/-- In a finite set where every element has an edge inside, some element reaches
itself. -/
theorem exists_cycle (hne : s ≠ []) (hstep : ∀ a ∈ s, ∃ b ∈ s, r a b) : ∃ a, TransGen r a a := by
  by_contra hno
  have hacyclic : Acyclic r := fun a ha => hno ⟨a, ha⟩
  let below : {a // a ∈ s} → {a // a ∈ s} → Prop := fun b a => TransGen r a.1 b.1
  have : IsTrans {a // a ∈ s} below := ⟨fun _ _ _ hab hbc => hbc.trans hab⟩
  have : Std.Irrefl below := ⟨fun a => hacyclic a.1⟩
  have hfinite : Finite {a // a ∈ s} := s.finite_toSet
  have hwf : WellFounded below := Finite.wellFounded_of_trans_of_irrefl below
  obtain ⟨a, ha⟩ := List.exists_mem_of_ne_nil s hne
  obtain ⟨m, _, hmin⟩ := hwf.has_min Set.univ ⟨⟨a, ha⟩, trivial⟩
  obtain ⟨b, hb, hmb⟩ := hstep m.1 m.2
  exact hmin ⟨b, hb⟩ trivial (.single hmb)

/-- Without cycles, a set that every node joins once its edges lead inside has
every node. -/
theorem Acyclic.exhausts {nodes : List κ} (hr : Acyclic r) (hnodes : DownClosed r nodes)
    (hstuck : ∀ a ∈ nodes, (∀ b, r a b → b ∈ s) → a ∈ s) : ∀ a ∈ nodes, a ∈ s := by
  classical
  by_contra hno
  push Not at hno
  obtain ⟨a, ha, has⟩ := hno
  have hleft : nodes.filter (fun x => decide (x ∉ s)) ≠ [] := by
    intro hnil
    have hmem : a ∈ nodes.filter (fun x => decide (x ∉ s)) := List.mem_filter.mpr ⟨ha, by simpa using has⟩
    rw [hnil] at hmem
    exact List.not_mem_nil hmem
  obtain ⟨c, hc⟩ := exists_cycle (r := r) hleft (by
    intro x hx
    obtain ⟨hx, hxs⟩ := List.mem_filter.mp hx
    by_contra hcon
    push Not at hcon
    have hxs' : x ∉ s := by simpa using hxs
    refine hxs' (hstuck x hx (fun b hb => ?_))
    by_contra hbs
    exact hcon b (List.mem_filter.mpr ⟨hnodes x hx b hb, by simpa using hbs⟩) hb)
  exact hr c hc

end AItelier.Lib

namespace AItelier.Lib

open Relation

variable {κ : Type*} {next : κ → Option κ}

/-- `b` is the one `a` points at. -/
def Points (next : κ → Option κ) (a b : κ) : Prop := next a = some b

/-- Where every pointer goes to a later position below a bound, nothing points back at
itself. -/
theorem points_acyclic {rank : κ → Nat} (hrank : ∀ a b, next a = some b → rank a < rank b) :
    Acyclic (Points next) := by
  have hlater : ∀ a b, TransGen (Points next) a b → rank a < rank b := by
    intro a b h
    induction h with
    | single hab => exact hrank _ _ hab
    | tail _ hbc ih => exact ih.trans (hrank _ _ hbc)
  intro a h
  exact Nat.lt_irrefl _ (hlater a a h)

/-- Following the pointers from `a` ends, and in one place only. -/
theorem points_end {rank : κ → Nat} {bound : Nat}
    (hrank : ∀ a b, next a = some b → rank a < rank b ∧ rank b < bound) (a : κ) :
    ∃! z, ReflTransGen (Points next) a z ∧ next z = none := by
  induction hm : bound - rank a using Nat.strongRecOn generalizing a with
  | _ m ih =>
    cases hnext : next a with
    | none =>
      refine ⟨a, ⟨.refl, hnext⟩, ?_⟩
      rintro z ⟨hreach, -⟩
      rcases ReflTransGen.cases_head hreach with rfl | ⟨b, hab, -⟩
      · rfl
      · rw [Points, hnext] at hab
        cases hab
    | some b =>
      have hb := hrank a b hnext
      obtain ⟨z, ⟨hbz, hz⟩, huniq⟩ := ih (bound - rank b) (by omega) b rfl
      refine ⟨z, ⟨.head hnext hbz, hz⟩, ?_⟩
      rintro y ⟨hreach, hy⟩
      rcases ReflTransGen.cases_head hreach with rfl | ⟨c, hac, hcy⟩
      · rw [hnext] at hy
        cases hy
      · obtain rfl : b = c := Option.some.inj (hnext.symm.trans hac)
        exact huniq y ⟨hcy, hy⟩

end AItelier.Lib

namespace AItelier.Lib

open Relation

variable {ν : Type*} {next : ν → ν → Prop} {a b : ν} {l : List ν}

/-- A walk: every place of it leads to the one after. -/
abbrev IsWalk (next : ν → ν → Prop) (l : List ν) : Prop := List.IsChain next l

/-- A walk that comes to a place with one way in came that way. -/
theorem IsWalk.came_from (h : IsWalk next (l ++ [b])) (hl : l ≠ []) (honly : ∀ x, next x b → x = a) :
    ∃ l', l = l' ++ [a] := by
  refine ⟨l.dropLast, ?_⟩
  have hsplit := List.dropLast_append_getLast hl
  have hstep : next (l.getLast hl) b := by
    rw [← hsplit, List.append_assoc, List.singleton_append] at h
    have htail := (List.isChain_append.mp h).2.1
    exact (List.isChain_cons_cons.mp htail).1
  rw [← honly _ hstep]
  exact hsplit.symm

theorem IsWalk.dropLast_concat (h : IsWalk next (l ++ [b])) : IsWalk next l := (List.isChain_append.mp h).1

/-- Wherever a place can be reached there is a walk to it. -/
theorem exists_walk (h : ReflTransGen next a b) : ∃ l, IsWalk next (l ++ [b]) ∧ (l ++ [b]).head? = some a := by
  induction h with
  | refl => exact ⟨[], List.isChain_singleton _, rfl⟩
  | @tail c d _ hstep ih =>
    obtain ⟨l, hwalk, hhead⟩ := ih
    refine ⟨l ++ [c], ?_, ?_⟩
    · apply List.isChain_append.mpr
      refine ⟨hwalk, List.isChain_singleton _, ?_⟩
      intro x hx y hy
      rw [List.getLast?_concat, Option.mem_some] at hx
      rw [List.head?_cons, Option.mem_some] at hy
      exact hx ▸ hy ▸ hstep
    · rw [List.head?_append, hhead]
      rfl

/-- What a walk passes through is reached from its start. -/
theorem IsWalk.reaches (h : IsWalk next l) (hhead : l.head? = some a) (hb : b ∈ l) : ReflTransGen next a b := by
  induction l generalizing a with
  | nil => cases hhead
  | cons c l ih =>
    obtain rfl : c = a := Option.some.inj hhead
    rcases List.mem_cons.mp hb with rfl | hb
    · exact .refl
    · cases l with
      | nil => exact absurd hb List.not_mem_nil
      | cons d l =>
        obtain ⟨hstep, hrest⟩ := List.isChain_cons_cons.mp h
        exact .head hstep (ih hrest rfl hb)

/-- A set that no step leaves holds all that is reached from inside it. -/
theorem mem_of_reaches {s : ν → Prop} (hclosed : ∀ a b, s a → next a b → s b) (ha : s a)
    (h : ReflTransGen next a b) : s b := by
  induction h with
  | refl => exact ha
  | tail _ hstep ih => exact hclosed _ _ ih hstep

end AItelier.Lib
