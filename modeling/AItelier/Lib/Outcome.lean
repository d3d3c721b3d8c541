import Mathlib.Logic.Basic
import Mathlib.Data.List.Basic

namespace AItelier.Lib

universe u

variable {ε : Type*} {α β : Type u}

/-- Refuse with `e` unless `c`. -/
def ensure (c : Prop) [Decidable c] (e : ε) : Except ε Unit :=
  if c then .ok () else .error e

/-- A check made only where `c` holds. -/
def whenever (c : Prop) [Decidable c] (x : Except ε Unit) : Except ε Unit :=
  if c then x else .ok ()

/-- An optional argument, checked where it is given. -/
def given (x : Option α) (f : α → Except ε β) (default : β) : Except ε β :=
  match x with
  | some a => f a
  | none => .ok default

/-- The value, or a refusal with `e`. -/
def orElse (x : Option α) (e : ε) : Except ε α :=
  match x with
  | some a => .ok a
  | none => .error e

/-- The same computation, whatever it refuses with replaced by `e`. -/
def rescue (x : Except ε α) (e : ε) : Except ε α :=
  match x with
  | .ok a => .ok a
  | .error _ => .error e

variable {x : Except ε α} {f : α → Except ε β} {b : β} {a : α} {e : ε} {c : Prop} {u : Unit} {bs : List β}

/-- A sequence of refusable computations succeeds exactly when each one does. -/
theorem bind_ok :
    (x >>= f) = .ok b ↔ ∃ a, x = .ok a ∧ f a = .ok b := by
  cases x with
  | error e => simp [bind, Except.bind]
  | ok a => simp [bind, Except.bind]

theorem ok_bind : (Except.ok a >>= f) = f a := rfl

theorem bind_error :
    (x >>= f) = .error e ↔ x = .error e ∨ ∃ a, x = .ok a ∧ f a = .error e := by
  cases x with
  | error e' => simp [bind, Except.bind]
  | ok a => simp [bind, Except.bind]

theorem pure_ok {a b : α} : (pure a : Except ε α) = .ok b ↔ a = b := by
  simp [pure, Except.pure]

theorem map_ok {f : α → β} : x.map f = .ok b ↔ ∃ a, x = .ok a ∧ f a = b := by
  cases x <;> simp [Except.map]

theorem optionMapM_ok {γ : Type*} {o : Option γ} {f : γ → Except ε β} {out : Option β} :
    o.mapM f = .ok out ↔ (o = none ∧ out = none) ∨ ∃ c b, o = some c ∧ f c = .ok b ∧ out = some b := by
  cases o with
  | none =>
    rw [Option.mapM_none, pure_ok]
    simp [eq_comm]
  | some c =>
    rw [Option.mapM_some]
    cases h : f c <;> simp [Functor.map, Except.map, h, eq_comm]

theorem throw_ok {b : α} : (throw e : Except ε α) = .ok b ↔ False := by
  simp [throw, throwThe, MonadExceptOf.throw]

theorem ensure_ok [Decidable c] : ensure c e = .ok u ↔ c := by
  by_cases h : c <;> simp [ensure, h]

theorem ensure_bind [Decidable c] {β : Type} {f : Unit → Except ε β} (h : c) :
    (ensure c e >>= f) = f () := by
  rw [ensure, if_pos h]
  rfl

theorem ensure_error [Decidable c] {e e' : ε} : ensure c e = .error e' ↔ ¬ c ∧ e = e' := by
  by_cases h : c <;> simp [ensure, h]

theorem whenever_ok [Decidable c] {x : Except ε Unit} :
    whenever c x = .ok u ↔ (c → x = .ok ()) := by
  by_cases h : c <;> simp [whenever, h]

theorem whenever_error [Decidable c] {x : Except ε Unit} :
    whenever c x = .error e ↔ c ∧ x = .error e := by
  by_cases h : c <;> simp [whenever, h]

theorem orElse_ok {x : Option α} : orElse x e = .ok a ↔ x = some a := by
  cases x <;> simp [orElse]

theorem orElse_error {x : Option α} {e e' : ε} : orElse x e = .error e' ↔ x = none ∧ e = e' := by
  cases x <;> simp [orElse]

theorem rescue_ok : rescue x e = .ok a ↔ x = .ok a := by
  cases x <;> simp [rescue]

theorem ite_ok [Decidable c] {x y : Except ε α} :
    (if c then x else y) = .ok a ↔ (c ∧ x = .ok a) ∨ (¬ c ∧ y = .ok a) := by
  by_cases h : c <;> simp [h]

/-- A loop that may refuse keeps what the round of each of its items keeps. -/
theorem foldlM_invariant_mem {γ : Type*} {I : α → Prop} {f : α → γ → Except ε α} {l : List γ}
    (hf : ∀ a, ∀ c ∈ l, ∀ a', I a → f a c = .ok a' → I a') {a a' : α} (ha : I a)
    (h : l.foldlM f a = .ok a') : I a' := by
  induction l generalizing a with
  | nil =>
    rw [List.foldlM_nil, pure_ok] at h
    exact h ▸ ha
  | cons c l ih =>
    rw [List.foldlM_cons, bind_ok] at h
    obtain ⟨b, hb, h⟩ := h
    have hrest : ∀ a, ∀ d ∈ l, ∀ a', I a → f a d = .ok a' → I a' :=
      fun a d hd => hf a d (List.mem_cons_of_mem c hd)
    exact ih hrest (hf a c (List.mem_cons_self ..) b ha hb) h

theorem foldlM_invariant {γ : Type*} {I : α → Prop} {f : α → γ → Except ε α}
    (hf : ∀ a c a', I a → f a c = .ok a' → I a') {l : List γ} {a a' : α} (ha : I a)
    (h : l.foldlM f a = .ok a') : I a' :=
  foldlM_invariant_mem (fun a c _ => hf a c) ha h

/-- A loop whose rounds go through under `g` goes through under `g`. -/
theorem foldlM_map {γ δ : Type*} {ε' : Type*} {f : α → γ → Except ε α} {f' : δ → γ → Except ε' δ} (g : α → δ)
    (hf : ∀ a c a', f a c = .ok a' → f' (g a) c = .ok (g a')) {l : List γ} {a a' : α}
    (h : l.foldlM f a = .ok a') : l.foldlM f' (g a) = .ok (g a') := by
  induction l generalizing a with
  | nil =>
    rw [List.foldlM_nil, pure_ok] at h
    rw [List.foldlM_nil, pure_ok, h]
  | cons c l ih =>
    rw [List.foldlM_cons, bind_ok] at h ⊢
    obtain ⟨b, hb, h⟩ := h
    exact ⟨g b, hf a c b hb, ih h⟩

/-- A loop that maps one list to another keeps what each round keeps of an item. -/
theorem mapM_map {γ : Type u} {δ : Type*} {f : γ → Except ε β} {g : γ → δ} {k : β → δ}
    (hf : ∀ c b, f c = .ok b → k b = g c) {l : List γ} (h : l.mapM f = .ok bs) :
    bs.map k = l.map g := by
  induction l generalizing bs with
  | nil =>
    rw [List.mapM_nil, pure_ok] at h
    subst h
    rfl
  | cons c l ih =>
    simp only [List.mapM_cons, bind_ok, pure_ok] at h
    obtain ⟨b, hb, rest, hr, rfl⟩ := h
    simp [hf c b hb, ih hr]

/-- What a loop collects comes from its items, and each item gives something. -/
theorem mapM_mem {γ : Type u} {f : γ → Except ε β} {l : List γ} (h : l.mapM f = .ok bs)
    (hb : b ∈ bs) : ∃ c ∈ l, f c = .ok b := by
  induction l generalizing bs with
  | nil =>
    rw [List.mapM_nil, pure_ok] at h
    exact absurd (h ▸ hb) List.not_mem_nil
  | cons c l ih =>
    simp only [List.mapM_cons, bind_ok, pure_ok] at h
    obtain ⟨d, hd, rest, hrest, rfl⟩ := h
    rcases List.mem_cons.mp hb with rfl | hb
    · exact ⟨c, List.mem_cons_self, hd⟩
    · obtain ⟨c', hc', hf⟩ := ih hrest hb
      exact ⟨c', List.mem_cons_of_mem c hc', hf⟩

theorem mapM_of_mem {γ : Type u} {f : γ → Except ε β} {l : List γ} (h : l.mapM f = .ok bs) {c : γ}
    (hc : c ∈ l) : ∃ b ∈ bs, f c = .ok b := by
  induction l generalizing bs with
  | nil => exact absurd hc List.not_mem_nil
  | cons d l ih =>
    simp only [List.mapM_cons, bind_ok, pure_ok] at h
    obtain ⟨b, hb, rest, hrest, rfl⟩ := h
    rcases List.mem_cons.mp hc with rfl | hc
    · exact ⟨b, List.mem_cons_self, hb⟩
    · obtain ⟨b', hb', hf⟩ := ih hrest hc
      exact ⟨b', List.mem_cons_of_mem b hb', hf⟩

theorem mapM_total {γ : Type u} {f : γ → Except ε β} {l : List γ} :
    (∃ bs, l.mapM f = .ok bs) ↔ ∀ c ∈ l, ∃ b, f c = .ok b := by
  constructor
  · rintro ⟨bs, h⟩ c hc
    obtain ⟨b, -, hb⟩ := mapM_of_mem h hc
    exact ⟨b, hb⟩
  · intro h
    induction l with
    | nil => exact ⟨[], rfl⟩
    | cons c l ih =>
      obtain ⟨b, hb⟩ := h c List.mem_cons_self
      obtain ⟨bs, hbs⟩ := ih (fun d hd => h d (List.mem_cons_of_mem c hd))
      refine ⟨b :: bs, ?_⟩
      simp only [List.mapM_cons, bind_ok, pure_ok]
      exact ⟨b, hb, bs, hbs, rfl⟩

theorem forM_ok {γ : Type*} {f : γ → Except ε Unit} {l : List γ} :
    l.forM f = .ok u ↔ ∀ c ∈ l, f c = .ok () := by
  induction l with
  | nil => exact ⟨fun _ => by simp, fun _ => rfl⟩
  | cons c l ih =>
    have hcons : (c :: l).forM f = (f c >>= fun _ => l.forM f) := rfl
    rw [hcons, bind_ok, List.forall_mem_cons, ← ih]
    exact ⟨fun ⟨_, h, hrest⟩ => ⟨h, hrest⟩, fun ⟨h, hrest⟩ => ⟨_, h, hrest⟩⟩

end AItelier.Lib

namespace AItelier.Lib

variable {ε : Type*}

def firstOf (checks : List (Option ε)) : Option ε := checks.findSome? id

def refuse (failed : Bool) (fault : ε) : Option ε := if failed then some fault else none

/-- A check of each element of a list, made on the list alone and not on its whole type. -/
theorem forall_of_all {α : Type*} {l : List α} {p : α → Prop} [DecidablePred p]
    (h : l.all (fun a => decide (p a)) = true) : ∀ a ∈ l, p a :=
  fun a ha => of_decide_eq_true (List.all_eq_true.mp h a ha)

@[simp] theorem firstOf_cons_none {o : Option ε} {rest : List (Option ε)} :
    firstOf (o :: rest) = none ↔ o = none ∧ firstOf rest = none := by
  cases o <;> simp [firstOf]

@[simp] theorem refuse_none {failed : Bool} {fault : ε} : refuse failed fault = none ↔ failed = false := by
  cases failed <;> simp [refuse]

end AItelier.Lib

namespace AItelier.Lib

universe u v

variable {ε ε' : Type*} {α β : Type u} {γ δ : Type v} {E : ε → ε' → Prop} {R : α → γ → Prop} {S : β → δ → Prop}

inductive Related (E : ε → ε' → Prop) (R : α → γ → Prop) : Except ε α → Except ε' γ → Prop
  | ok {a : α} {c : γ} (h : R a c) : Related E R (.ok a) (.ok c)
  | error {e : ε} {e' : ε'} (h : E e e') : Related E R (.error e) (.error e')

variable {y : Except ε' γ} {x : Except ε α}

/-- Related computations continued in related ways are related. -/
theorem Related.bind {f : α → Except ε β} {g : γ → Except ε' δ}
    (h : Related E R x y) (hf : ∀ a c, R a c → Related E S (f a) (g c)) : Related E S (x >>= f) (y >>= g) := by
  cases h with
  | ok h => exact hf _ _ h
  | error h => exact .error h

theorem Related.map {f : α → β} {g : γ → δ} (h : Related E R x y)
    (hf : ∀ a c, R a c → S (f a) (g c)) : Related E S (f <$> x) (g <$> y) := by
  cases h with
  | ok h => exact .ok (hf _ _ h)
  | error h => exact .error h

theorem Related.ensure {c : Prop} [Decidable c] {e : ε} {e' : ε'} {R : Unit → Unit → Prop} (h : c → R () ())
    (he : E e e') : Related E R (ensure c e) (ensure c e') := by
  unfold Lib.ensure
  split
  · next hc => exact .ok (h hc)
  · exact .error he

theorem Related.orElse {x : Option α} {y : Option γ} {e : ε} {e' : ε'} (h : ∀ c, y = some c → ∃ a, x = some a ∧ R a c)
    (hnone : y = none → x = none) (he : E e e') : Related E R (orElse x e) (orElse y e') := by
  cases y with
  | none =>
    rw [hnone rfl]
    exact .error he
  | some c =>
    obtain ⟨a, rfl, hr⟩ := h c rfl
    exact .ok hr

/-- What holds of every two results that are related. -/
theorem Related.imp {Q : α → γ → Prop} (h : Related E R x y)
    (hR : ∀ a c, x = .ok a → y = .ok c → R a c → Q a c) : Related E Q x y := by
  cases h with
  | ok h => exact .ok (hR _ _ rfl rfl h)
  | error h => exact .error h

end AItelier.Lib

namespace AItelier.Lib

universe u

variable {ε : Type*} {σ ρ δ : Type u} {ι : Type*}

/-- The replies of one process, and the state it ends in. -/
def direct (step : σ → ι → ρ × σ) : σ → List ι → List ρ × σ
  | s, [] => ([], s)
  | s, i :: rest => ((step s i).1 :: (direct step (step s i).2 rest).1, (direct step (step s i).2 rest).2)

/-- Every step by a process of its own. -/
def restarted (step : σ → ι → ρ × σ) (load : δ → Except ε σ) (save : δ → σ → ι → Except ε δ) :
    δ → List ι → Except ε (List ρ × δ)
  | d, [] => .ok ([], d)
  | d, i :: rest => do
    let s ← load d
    let saved ← save d (step s i).2 i
    let (replies, last) ← restarted step load save saved rest
    return ((step s i).1 :: replies, last)

/-- Where what is saved after a step is loaded as the state of that step, restarts
are not noticed. -/
theorem restarted_direct {step : σ → ι → ρ × σ} {load : δ → Except ε σ} {save : δ → σ → ι → Except ε δ}
    {Holds : δ → σ → Prop} (hload : ∀ {d s}, Holds d s → load d = .ok s)
    (hsave : ∀ {d s} i, Holds d s → ∃ saved, save d (step s i).2 i = .ok saved ∧ Holds saved (step s i).2) {d : δ}
    {s : σ} (h : Holds d s) (steps : List ι) :
    ∃ last, restarted step load save d steps = .ok ((direct step s steps).1, last) ∧
      Holds last (direct step s steps).2 := by
  induction steps generalizing d s with
  | nil => exact ⟨d, rfl, h⟩
  | cons i rest ih =>
    obtain ⟨saved, hsaved, hnext⟩ := hsave i h
    obtain ⟨last, hrest, hlast⟩ := ih hnext
    refine ⟨last, ?_, hlast⟩
    simp only [restarted, hload h, hsaved, hrest, ok_bind]
    rfl

end AItelier.Lib
