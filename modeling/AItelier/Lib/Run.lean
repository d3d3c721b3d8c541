import Mathlib.Data.List.Basic

namespace AItelier.Lib

variable {σ : Type*} {α : Type*}

/-- The state after the steps of `ops`, in order. -/
def run (step : σ → α → σ) (s : σ) (ops : List α) : σ :=
  ops.foldl step s

@[simp] theorem run_nil (step : σ → α → σ) (s : σ) : run step s [] = s := rfl

@[simp] theorem run_cons (step : σ → α → σ) (s : σ) (a : α) (ops : List α) :
    run step s (a :: ops) = run step (step s a) ops := rfl

theorem run_append (step : σ → α → σ) (s : σ) (xs ys : List α) :
    run step s (xs ++ ys) = run step (run step s xs) ys :=
  List.foldl_append

/-- Every step of the run meets `ok` in the state it is taken from. -/
def Along (ok : σ → α → Prop) (step : σ → α → σ) : σ → List α → Prop
  | _, [] => True
  | s, a :: ops => ok s a ∧ Along ok step (step s a) ops

@[simp] theorem along_nil (ok : σ → α → Prop) (step : σ → α → σ) (s : σ) : Along ok step s [] :=
  trivial

@[simp] theorem along_cons {ok : σ → α → Prop} {step : σ → α → σ} {s : σ} {a : α} {ops : List α} :
    Along ok step s (a :: ops) ↔ ok s a ∧ Along ok step (step s a) ops :=
  Iff.rfl

instance decidableAlong {ok : σ → α → Prop} [∀ s a, Decidable (ok s a)] {step : σ → α → σ} :
    ∀ (s : σ) (ops : List α), Decidable (Along ok step s ops)
  | _, [] => .isTrue trivial
  | s, a :: ops => @instDecidableAnd (ok s a) (Along ok step (step s a) ops) _ (decidableAlong (step s a) ops)

/-- What every step meets, every run does. -/
theorem along_of {ok : σ → α → Prop} {step : σ → α → σ} (h : ∀ s a, ok s a) (s : σ) (ops : List α) :
    Along ok step s ops := by
  induction ops generalizing s with
  | nil => trivial
  | cons a ops ih => exact ⟨h s a, ih _⟩

theorem Along.imp {ok ok' : σ → α → Prop} {step : σ → α → σ} {s : σ} {ops : List α}
    (h : ∀ s, ∀ a ∈ ops, ok s a → ok' s a) (hok : Along ok step s ops) : Along ok' step s ops := by
  induction ops generalizing s with
  | nil => trivial
  | cons a ops ih =>
    exact ⟨h s a (List.mem_cons_self ..) hok.1, ih (fun s b hb => h s b (List.mem_cons_of_mem a hb)) hok.2⟩

theorem Along.append {ok : σ → α → Prop} {step : σ → α → σ} {s : σ} {xs ys : List α} :
    Along ok step s (xs ++ ys) ↔ Along ok step s xs ∧ Along ok step (run step s xs) ys := by
  induction xs generalizing s with
  | nil => simp
  | cons a xs ih => simp [ih, and_assoc]

/-- A property that every admitted step keeps holds at the end of every run. -/
theorem run_invariant {I : σ → Prop} {ok : σ → α → Prop} {step : σ → α → σ}
    (hstep : ∀ s a, I s → ok s a → I (step s a)) {s : σ} {ops : List α} (hs : I s)
    (hok : Along ok step s ops) : I (run step s ops) := by
  induction ops generalizing s with
  | nil => exact hs
  | cons a ops ih => exact ih (hstep s a hs hok.1) hok.2

/-- A loop keeps what each of its rounds keeps. -/
theorem foldl_keeps {γ : Type*} (g : σ → γ) {step : σ → α → σ} (hg : ∀ s a, g (step s a) = g s) (s : σ)
    (l : List α) : g (l.foldl step s) = g s := by
  induction l generalizing s with
  | nil => rfl
  | cons a l ih => exact (ih (step s a)).trans (hg s a)

end AItelier.Lib
