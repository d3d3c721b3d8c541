import AItelier.Lib.Table
import Mathlib.Logic.Relation

namespace AItelier.Lib.Docket

variable {α κ γ : Type*} {key : α → κ} {terms : α → γ} {pending : α → Prop} {T T' T'' : List α}

/-- What may happen to a docket: a new entry comes in under a key of its own, or
pending entries are decided, which leaves their terms as they are. -/
inductive Step (key : α → κ) (terms : α → γ) (pending : α → Prop) : List α → List α → Prop
  | enter (T : List α) (r : α) (fresh : ∀ q ∈ T, key q ≠ key r) : Step key terms pending T (T ++ [r])
  | decide (T : List α) (p : α → Bool) (f : α → α) (open_ : ∀ r ∈ T, p r = true → pending r)
      (hkey : ∀ r, key (f r) = key r) (hterms : ∀ r, terms (f r) = terms r) :
      Step key terms pending T (modifyWhere p f T)

abbrev Steps (key : α → κ) (terms : α → γ) (pending : α → Prop) : List α → List α → Prop :=
  Relation.ReflTransGen (Step key terms pending)

/-- The entry as a later docket has it: on the same terms, and the same row once
it is decided. -/
structure Later (terms : α → γ) (pending : α → Prop) (r r' : α) : Prop where
  terms : terms r' = terms r
  final : ¬ pending r → r' = r

theorem Later.refl (r : α) : Later terms pending r r := ⟨rfl, fun _ => rfl⟩

theorem Later.trans {r r' r'' : α} (h : Later terms pending r r') (h' : Later terms pending r' r'') :
    Later terms pending r r'' where
  terms := h'.terms.trans h.terms
  final := by
    intro hr
    have he := h.final hr
    subst he
    exact h'.final hr

/-- Entries are never lost and never decided twice. -/
def Follows (key : α → κ) (terms : α → γ) (pending : α → Prop) (T T' : List α) : Prop :=
  ∀ r ∈ T, ∃ r' ∈ T', key r' = key r ∧ Later terms pending r r'

theorem Follows.refl (T : List α) : Follows key terms pending T T :=
  fun r hr => ⟨r, hr, rfl, Later.refl r⟩

theorem Follows.trans (h : Follows key terms pending T T') (h' : Follows key terms pending T' T'') :
    Follows key terms pending T T'' := by
  intro r hr
  obtain ⟨r', hr', hk, hl⟩ := h r hr
  obtain ⟨r'', hr'', hk', hl'⟩ := h' r' hr'
  exact ⟨r'', hr'', hk'.trans hk, hl.trans hl'⟩

theorem Step.follows (h : Step key terms pending T T') : Follows key terms pending T T' := by
  intro r hr
  cases h with
  | enter r₀ fresh => exact ⟨r, List.mem_append_left _ hr, rfl, Later.refl r⟩
  | decide p f hopen hkey hterms =>
    refine ⟨_, mem_modifyWhere.mpr ⟨r, hr, rfl⟩, ?_⟩
    by_cases hp : p r = true
    · simp only [hp, if_true]
      exact ⟨hkey r, hterms r, fun hn => absurd (hopen r hr hp) hn⟩
    · simp only [hp]
      exact ⟨rfl, Later.refl r⟩

theorem Steps.follows (h : Steps key terms pending T T') : Follows key terms pending T T' := by
  induction h with
  | refl => exact Follows.refl T
  | tail _ hstep ih => exact ih.trans hstep.follows

theorem Step.distinct (hn : (T.map key).Nodup) (h : Step key terms pending T T') : (T'.map key).Nodup := by
  cases h with
  | enter r fresh =>
    rw [List.map_append, List.map_singleton]
    refine List.nodup_append.mpr ⟨hn, List.nodup_singleton _, ?_⟩
    intro k hk k' hk' he
    obtain ⟨q, hq, rfl⟩ := List.mem_map.mp hk
    rw [List.mem_singleton] at hk'
    exact fresh q hq (he.trans hk')
  | decide p f hopen hkey hterms =>
    rw [map_modifyWhere (fun r _ => hkey r)]
    exact hn

theorem Steps.distinct (hn : (T.map key).Nodup) (h : Steps key terms pending T T') : (T'.map key).Nodup := by
  induction h with
  | refl => exact hn
  | tail _ hstep ih => exact hstep.distinct ih

/-- The terms of the entries only grow. -/
theorem Step.terms_kept (h : Step key terms pending T T') : T.map terms <+: T'.map terms := by
  cases h with
  | enter r fresh =>
    rw [List.map_append]
    exact List.prefix_append _ _
  | decide p f hopen hkey hterms =>
    rw [map_modifyWhere (fun r _ => hterms r)]

theorem Steps.terms_kept (h : Steps key terms pending T T') : T.map terms <+: T'.map terms := by
  induction h with
  | refl => exact List.prefix_refl _
  | tail _ hstep ih => exact ih.trans hstep.terms_kept

end AItelier.Lib.Docket
