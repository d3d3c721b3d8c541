import AItelier.Lib.Cursor
import Mathlib.Logic.Relation

namespace AItelier.Lib

/-- A fencing ticket: a holder's numbered hold on a subject. -/
structure Ticket (ι κ δ : Type*) where
  id : ι
  subject : κ
  holder : δ
  exclusive : Bool
  live : Bool
  fence : Nat

namespace Ticket

variable {ι κ δ : Type*} {T T' T'' : List (Ticket ι κ δ)}

section Steps
variable [DecidableEq ι]

/-- What may happen to a desk of tickets: some stop being live, one gets a higher
fence, or a new one is issued above all others of its subject. -/
inductive Step : List (Ticket ι κ δ) → List (Ticket ι κ δ) → Prop
  | retire (T : List (Ticket ι κ δ)) (p : Ticket ι κ δ → Bool) :
      Step T (T.map (fun t => if p t then { t with live := false } else t))
  | refence (T : List (Ticket ι κ δ)) (i : ι) (f : Nat)
      (above : ∀ t ∈ T, t.id = i → ∀ u ∈ T, u.subject = t.subject → u.fence < f) :
      Step T (T.map (fun t => if t.id = i then { t with fence := f } else t))
  | issue (T : List (Ticket ι κ δ)) (t : Ticket ι κ δ) (fresh : ∀ u ∈ T, u.id ≠ t.id)
      (above : ∀ u ∈ T, u.subject = t.subject → u.fence < t.fence)
      (alone : t.exclusive = true → ∀ u ∈ T, u.subject = t.subject → u.exclusive = true → u.live = false) :
      Step T (T ++ [t])

abbrev Steps : List (Ticket ι κ δ) → List (Ticket ι κ δ) → Prop := Relation.ReflTransGen Step

end Steps

/-- Ids and fences are given once, and a subject has one live exclusive ticket. -/
structure Fenced (T : List (Ticket ι κ δ)) : Prop where
  distinct : (T.map Ticket.id).Nodup
  single : ∀ t ∈ T, ∀ u ∈ T, t.subject = u.subject → t.exclusive = true → u.exclusive = true →
    t.live = true → u.live = true → t.id = u.id
  fences : ∀ t ∈ T, ∀ u ∈ T, t.subject = u.subject → t.fence = u.fence → t.id = u.id

theorem fenced_nil : Fenced ([] : List (Ticket ι κ δ)) where
  distinct := List.nodup_nil
  single := by intro t h; cases h
  fences := by intro t h; cases h

/-- Tickets are never lost, revived or moved, fences only rise, and a fence that
was not there before is above all that were. -/
structure Follows (T T' : List (Ticket ι κ δ)) : Prop where
  kept : ∀ t ∈ T, ∃ t' ∈ T', t'.id = t.id ∧ t'.subject = t.subject ∧ t'.holder = t.holder ∧
    t.fence ≤ t'.fence ∧ (t.live = false → t'.live = false)
  issued : ∀ t' ∈ T', (∃ t ∈ T, t.id = t'.id ∧ t.subject = t'.subject ∧ t.holder = t'.holder ∧
    t.fence = t'.fence) ∨ ∀ t ∈ T, t.subject = t'.subject → t.fence < t'.fence

theorem Follows.refl (T : List (Ticket ι κ δ)) : Follows T T where
  kept := fun t ht => ⟨t, ht, rfl, rfl, rfl, Nat.le_refl _, fun h => h⟩
  issued := fun t ht => .inl ⟨t, ht, rfl, rfl, rfl, rfl⟩

theorem Follows.trans (h : Follows T T') (h' : Follows T' T'') : Follows T T'' where
  kept := by
    intro t ht
    obtain ⟨u, hu, h1, h2, h3, h4, h5⟩ := h.kept t ht
    obtain ⟨v, hv, g1, g2, g3, g4, g5⟩ := h'.kept u hu
    exact ⟨v, hv, g1.trans h1, g2.trans h2, g3.trans h3, Nat.le_trans h4 g4, fun hl => g5 (h5 hl)⟩
  issued := by
    intro v hv
    rcases h'.issued v hv with ⟨u, hu, h1, h2, h3, h4⟩ | habove
    · rcases h.issued u hu with ⟨t, ht, g1, g2, g3, g4⟩ | habove
      · exact .inl ⟨t, ht, g1.trans h1, g2.trans h2, g3.trans h3, g4.trans h4⟩
      · refine .inr (fun t ht hs => ?_)
        rw [← h4]
        exact habove t ht (hs.trans h2.symm)
    · refine .inr (fun t ht hs => ?_)
      obtain ⟨u, hu, _, h2, _, h4, _⟩ := h.kept t ht
      exact Nat.lt_of_le_of_lt h4 (habove u hu (h2.trans hs))

theorem map_id_of {f : Ticket ι κ δ → Ticket ι κ δ} (hf : ∀ t, (f t).id = t.id) (T : List (Ticket ι κ δ)) :
    (T.map f).map Ticket.id = T.map Ticket.id := by
  rw [List.map_map]
  exact List.map_congr_left (fun t _ => hf t)

section Runs
variable [DecidableEq ι]

theorem Step.follows (h : Step T T') : Follows T T' := by
  cases h with
  | retire p =>
    constructor
    · intro t ht
      refine ⟨_, List.mem_map_of_mem ht, ?_⟩
      by_cases hp : p t = true <;> simp [hp]
    · intro t' ht'
      obtain ⟨t, ht, rfl⟩ := List.mem_map.mp ht'
      refine .inl ⟨t, ht, ?_⟩
      by_cases hp : p t = true <;> simp [hp]
  | refence i f above =>
    constructor
    · intro t ht
      refine ⟨_, List.mem_map_of_mem ht, ?_⟩
      by_cases hi : t.id = i
      · have hlt := above t ht hi t ht rfl
        simp [hi, Nat.le_of_lt hlt]
      · simp [hi]
    · intro t' ht'
      obtain ⟨t, ht, rfl⟩ := List.mem_map.mp ht'
      by_cases hi : t.id = i
      · right
        intro u hu hs
        simp only [hi, if_true] at hs ⊢
        exact above t ht hi u hu hs
      · left
        exact ⟨t, ht, by simp [hi]⟩
  | issue t fresh above alone =>
    constructor
    · intro u hu
      exact ⟨u, List.mem_append_left _ hu, rfl, rfl, rfl, Nat.le_refl _, fun h => h⟩
    · intro u hu
      rcases List.mem_append.mp hu with hu | hu
      · exact .inl ⟨u, hu, rfl, rfl, rfl, rfl⟩
      · rw [List.mem_singleton.mp hu]
        exact .inr above

theorem Step.fenced (hf : Fenced T) (h : Step T T') : Fenced T' := by
  obtain ⟨distinct, single, fences⟩ := hf
  cases h with
  | retire p =>
    have hid : ∀ t : Ticket ι κ δ, (if p t then { t with live := false } else t).id = t.id := by
      intro t
      by_cases hp : p t = true <;> simp [hp]
    refine ⟨by rw [map_id_of hid]; exact distinct, ?_, ?_⟩
    · intro t' ht' u' hu'
      obtain ⟨t, ht, rfl⟩ := List.mem_map.mp ht'
      obtain ⟨u, hu, rfl⟩ := List.mem_map.mp hu'
      by_cases hp : p t = true <;> by_cases hq : p u = true <;> simp [hp, hq]
      exact single t ht u hu
    · intro t' ht' u' hu'
      obtain ⟨t, ht, rfl⟩ := List.mem_map.mp ht'
      obtain ⟨u, hu, rfl⟩ := List.mem_map.mp hu'
      have h := fences t ht u hu
      by_cases hp : p t = true <;> by_cases hq : p u = true <;> simpa [hp, hq] using h
  | refence i f above =>
    have hid : ∀ t : Ticket ι κ δ, (if t.id = i then { t with fence := f } else t).id = t.id := by
      intro t
      by_cases hp : t.id = i <;> simp [hp]
    refine ⟨by rw [map_id_of hid]; exact distinct, ?_, ?_⟩
    · intro t' ht' u' hu'
      obtain ⟨t, ht, rfl⟩ := List.mem_map.mp ht'
      obtain ⟨u, hu, rfl⟩ := List.mem_map.mp hu'
      have h := single t ht u hu
      rw [hid, hid]
      by_cases hp : t.id = i
      · by_cases hq : u.id = i
        · intros
          exact hp.trans hq.symm
        · simpa [hp, hq] using h
      · by_cases hq : u.id = i <;> simpa [hp, hq] using h
    · intro t' ht' u' hu'
      obtain ⟨t, ht, rfl⟩ := List.mem_map.mp ht'
      obtain ⟨u, hu, rfl⟩ := List.mem_map.mp hu'
      intro hs he
      rw [hid, hid]
      by_cases hp : t.id = i
      · by_cases hq : u.id = i
        · exact hp.trans hq.symm
        · simp only [hp, hq, if_true, if_false] at hs he
          have hlt := above t ht hp u hu hs.symm
          omega
      · by_cases hq : u.id = i
        · simp only [hp, hq, if_true, if_false] at hs he
          have hlt := above u hu hq t ht hs
          omega
        · simp only [hp, hq, if_false] at hs he
          exact fences t ht u hu hs he
  | issue t fresh above alone =>
    refine ⟨?_, ?_, ?_⟩
    · rw [List.map_append, List.nodup_append]
      refine ⟨distinct, List.nodup_singleton _, ?_⟩
      intro a ha b hb he
      obtain ⟨u, hu, rfl⟩ := List.mem_map.mp ha
      rw [List.map_singleton, List.mem_singleton] at hb
      exact fresh u hu (he.trans hb)
    · intro x hx y hy hs hex hey hlx hly
      rcases List.mem_append.mp hx with hx | hx <;> rcases List.mem_append.mp hy with hy | hy
      · exact single x hx y hy hs hex hey hlx hly
      · rw [List.mem_singleton.mp hy] at hs hey
        rw [alone hey x hx hs hex] at hlx
        cases hlx
      · rw [List.mem_singleton.mp hx] at hs hex
        rw [alone hex y hy hs.symm hey] at hly
        cases hly
      · rw [List.mem_singleton.mp hx, List.mem_singleton.mp hy]
    · intro x hx y hy hs he
      rcases List.mem_append.mp hx with hx | hx <;> rcases List.mem_append.mp hy with hy | hy
      · exact fences x hx y hy hs he
      · rw [List.mem_singleton.mp hy] at hs he
        exact absurd he (Nat.ne_of_lt (above x hx hs))
      · rw [List.mem_singleton.mp hx] at hs he
        exact absurd he.symm (Nat.ne_of_lt (above y hy hs.symm))
      · rw [List.mem_singleton.mp hx, List.mem_singleton.mp hy]

theorem Steps.follows (h : Steps T T') : Follows T T' := by
  induction h with
  | refl => exact Follows.refl T
  | tail _ st ih => exact ih.trans st.follows

theorem Steps.fenced (hf : Fenced T) (h : Steps T T') : Fenced T' := by
  induction h with
  | refl => exact hf
  | tail _ st ih => exact st.fenced ih

end Runs

end Ticket

end AItelier.Lib
