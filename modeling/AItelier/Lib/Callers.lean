import AItelier.Lib.Run
import Mathlib.Data.List.Induction
import Mathlib.Logic.Function.Basic

namespace AItelier.Lib

/-- The shared state, and where each process stands in its call. -/
structure Callers (σ π : Type*) where
  shared : σ
  phase : Nat → π

namespace Callers

variable {σ π α : Type*}

/-- The process `e.1` takes its next effect. -/
def step (act : σ → π → α → σ × π) (s : Callers σ π) (e : Nat × α) : Callers σ π :=
  ⟨(act s.shared (s.phase e.1) e.2).1, Function.update s.phase e.1 (act s.shared (s.phase e.1) e.2).2⟩

/-- What one process did, in its own order. -/
def own (p : Nat) (es : List (Nat × α)) : List α := (es.filter (fun e => decide (e.1 = p))).map Prod.snd

theorem own_append (p : Nat) (es fs : List (Nat × α)) : own p (es ++ fs) = own p es ++ own p fs := by
  rw [own, List.filter_append, List.map_append]
  rfl

theorem own_self (p : Nat) (a : α) : own p [(p, a)] = [a] := by simp [own]

theorem own_other {p q : Nat} (h : q ≠ p) (a : α) : own p [(q, a)] = [] := by simp [own, h]

variable {act : σ → π → α → σ × π}

theorem shared_step (s : Callers σ π) (e : Nat × α) :
    (step act s e).shared = (act s.shared (s.phase e.1) e.2).1 := rfl

theorem phase_self (s : Callers σ π) (e : Nat × α) :
    (step act s e).phase e.1 = (act s.shared (s.phase e.1) e.2).2 := by simp [step]

theorem phase_other (s : Callers σ π) (e : Nat × α) {p : Nat} (h : p ≠ e.1) :
    (step act s e).phase p = s.phase p := by simp [step, h]

/-- What every effect keeps of the shared state, whatever phase it is taken in. -/
theorem shared_invariant {I : σ → Prop} (hact : ∀ s ph a, I s → I (act s ph a).1) {s : Callers σ π}
    (hs : I s.shared) (es : List (Nat × α)) : I (run (step act) s es).shared := by
  have hstep : ∀ (t : Callers σ π) e, I t.shared → True → I (step act t e).shared :=
    fun t e ht _ => hact t.shared (t.phase e.1) e.2 ht
  exact run_invariant (I := fun t => I t.shared) hstep hs (along_of (fun _ _ => trivial) s es)

/-- What a phase tells of the effects its own process took before. -/
theorem phase_traced {T : π → List α → Prop} (hact : ∀ s ph a log, T ph log → T (act s ph a).2 (log ++ [a]))
    {s : Callers σ π} (hs : ∀ p, T (s.phase p) []) (es : List (Nat × α)) (p : Nat) :
    T ((run (step act) s es).phase p) (own p es) := by
  induction es using List.reverseRecOn with
  | nil => exact hs p
  | append_singleton es e ih =>
    rw [run_append, run_cons, run_nil, own_append]
    by_cases hp : p = e.1
    · subst hp
      rw [phase_self, own_self]
      exact hact _ _ _ _ ih
    · rw [phase_other _ _ hp, own_other (fun he => hp he.symm), List.append_nil]
      exact ih

/-- What one process keeps over its own effects, whatever the others do between them. -/
theorem own_steps {P : List α → π → Prop} {s : Callers σ π} {es : List (Nat × α)} {p : Nat} (hs : P [] (s.phase p))
    (hact : ∀ es₁ a es₂, es = es₁ ++ (p, a) :: es₂ → P (own p es₁) ((run (step act) s es₁).phase p) →
      P (own p es₁ ++ [a]) (act (run (step act) s es₁).shared ((run (step act) s es₁).phase p) a).2) :
    P (own p es) ((run (step act) s es).phase p) := by
  induction es using List.reverseRecOn with
  | nil => exact hs
  | append_singleton es e ih =>
    have hbefore : P (own p es) ((run (step act) s es).phase p) := by
      refine ih (fun es₁ a es₂ hes => hact es₁ a (es₂ ++ [e]) ?_)
      rw [hes, List.append_assoc]
      rfl
    obtain ⟨q, a⟩ := e
    rw [run_append, run_cons, run_nil, own_append]
    by_cases hp : q = p
    · subst hp
      rw [phase_self, own_self]
      exact hact es a [] rfl hbefore
    · rw [phase_other _ _ (fun he => hp he.symm), own_other hp, List.append_nil]
      exact hbefore

/-- What holds of the shared state and of each phase against it, where every effect
keeps it for the process that takes it and for all others. -/
theorem joint_invariant {I : σ → Prop} {J : σ → π → Prop} {ok : α → Prop}
    (hshared : ∀ s ph a, I s → J s ph → ok a → I (act s ph a).1)
    (hown : ∀ s ph a, I s → J s ph → ok a → J (act s ph a).1 (act s ph a).2)
    (hother : ∀ s ph a ph', I s → J s ph → ok a → J s ph' → J (act s ph a).1 ph') {s : Callers σ π}
    (hI : I s.shared) (hJ : ∀ p, J s.shared (s.phase p)) {es : List (Nat × α)} (hok : ∀ e ∈ es, ok e.2) :
    I (run (step act) s es).shared ∧ ∀ p, J (run (step act) s es).shared ((run (step act) s es).phase p) := by
  induction es generalizing s with
  | nil => exact ⟨hI, hJ⟩
  | cons e es ih =>
    have he := hok e List.mem_cons_self
    rw [run_cons]
    apply ih
    · exact hshared _ _ _ hI (hJ e.1) he
    · intro p
      by_cases hp : p = e.1
      · rw [hp, phase_self]
        exact hown _ _ _ hI (hJ e.1) he
      · rw [phase_other _ _ hp]
        exact hother _ _ _ _ hI (hJ e.1) he (hJ p)
    · exact fun e' he' => hok e' (List.mem_cons_of_mem _ he')

end Callers

end AItelier.Lib
