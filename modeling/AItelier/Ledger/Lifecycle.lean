import AItelier.Ledger.Model

namespace AItelier.Ledger

open AItelier.Lib AItelier.State

variable {D : Discipline} {L L' : Ledger} {i j : String} {t t' u : Try}

theorem Step.tries_cases (h : Step D L L') :
    (L'.tries = L.tries ∧ L'.order = L.order ∧ L'.latest = L.latest) ∨
    (∃ i t f, Admits L i t f ∧ L'.tries = Function.update L.tries i (some t) ∧ L'.order = L.order ++ [i] ∧
      L'.latest = Function.update L.latest t.node (some i)) ∨
    (∃ i t t', L.tries i = some t ∧ Move D L i t t' ∧ L'.tries = Function.update L.tries i (some t') ∧
      L'.order = L.order ∧ L'.latest = L.latest) := by
  cases h with
  | grow facts deps grows => exact .inl ⟨rfl, rfl, rfl⟩
  | invalidate U closed => exact .inl ⟨rfl, rfl, rfl⟩
  | rewrite k f f' deps fact stale revision status receipt wired => exact .inl ⟨rfl, rfl, rfl⟩
  | close k f fact stale => exact .inl ⟨rfl, rfl, rfl⟩
  | offer k f fact unverified open_ reviewable => exact .inl ⟨rfl, rfl, rfl⟩
  | admission i t f admits => exact .inr (.inl ⟨i, t, f, admits, rfl, rfl, rfl⟩)
  | move i t t' tried moves => exact .inr (.inr ⟨i, t, t', tried, moves, rfl, rfl, rfl⟩)
  | attest e t attests => exact .inl ⟨rfl, rfl, rfl⟩
  | accept r f t accepts => exact .inl ⟨rfl, rfl, rfl⟩

/-- What holds of the attempts of every ledger: ids are given once, a node has
one active slot, a run is bound once, and nothing is pinned on an attempt that
is still active. -/
structure Orderly (L : Ledger) : Prop where
  distinct : L.order.Nodup
  newest : ∀ k i, L.latest k = some i → ∃ t, L.tries i = some t ∧ t.node = k
  single : ∀ i j t u, L.tries i = some t → L.tries j = some u → t.node = u.node →
    t.status.active = true → u.status.active = true → i = j
  idle : ∀ i t, L.tries i = some t → t.status.active = true → t.artifact = none
  bound : ∀ i j t u r, L.tries i = some t → L.tries j = some u → t.run = some r → u.run = some r → i = j

theorem orderly_empty : Orderly Ledger.empty where
  distinct := List.nodup_nil
  newest := by intro k i h; cases h
  single := by intro i j t u h; cases h
  idle := by intro i t h; cases h
  bound := by intro i j t u r h; cases h

theorem orderly_congr (ho : Orderly L) (ht : L'.tries = L.tries) (hd : L'.order = L.order)
    (hl : L'.latest = L.latest) : Orderly L' := by
  obtain ⟨distinct, newest, single, idle, bound⟩ := ho
  rw [← ht, ← hl] at newest
  rw [← ht] at single idle bound
  rw [← hd] at distinct
  exact ⟨distinct, newest, single, idle, bound⟩

theorem update_some {κ : Type*} {α : Type*} [DecidableEq κ] {f : κ → Option α} {a j : κ} {x y : α}
    (h : Function.update f a (some x) j = some y) : (j = a ∧ y = x) ∨ (j ≠ a ∧ f j = some y) := by
  by_cases he : j = a
  · subst he
    rw [Function.update_self] at h
    exact .inl ⟨rfl, (Option.some.inj h).symm⟩
  · rw [Function.update_of_ne he] at h
    exact .inr ⟨he, h⟩

theorem orderly_admission {f : Fact} (ho : Orderly L) (ha : Admits L i t f) : Orderly (L.admission i t) where
  distinct := by
    refine List.nodup_append.mpr ⟨ho.distinct, List.nodup_singleton i, ?_⟩
    intro a ha' b hb
    rw [List.mem_singleton] at hb
    rintro rfl
    exact ha.unlisted (hb ▸ ha')
  newest := by
    intro k j h
    rcases update_some h with ⟨rfl, rfl⟩ | ⟨hk, hj⟩
    · exact ⟨t, Function.update_self .., rfl⟩
    · obtain ⟨u, hu, hn⟩ := ho.newest k j hj
      have hne : j ≠ i := by
        rintro rfl
        rw [ha.fresh] at hu
        cases hu
      exact ⟨u, (Function.update_of_ne hne ..).trans hu, hn⟩
  single := by
    intro a b v w hv hw hn hav haw
    rcases update_some hv with ⟨rfl, rfl⟩ | ⟨_, hv'⟩
    · rcases update_some hw with ⟨rfl, _⟩ | ⟨_, hw'⟩
      · rfl
      · rw [ha.alone b w hw' hn.symm] at haw
        cases haw
    · rcases update_some hw with ⟨rfl, rfl⟩ | ⟨_, hw'⟩
      · rw [ha.alone a v hv' hn] at hav
        cases hav
      · exact ho.single a b v w hv' hw' hn hav haw
  idle := by
    intro a v hv hav
    rcases update_some hv with ⟨rfl, rfl⟩ | ⟨_, hv'⟩
    · exact ha.artifact
    · exact ho.idle a v hv' hav
  bound := by
    intro a b v w r hv hw hr hs
    rcases update_some hv with ⟨rfl, rfl⟩ | ⟨_, hv'⟩
    · rw [ha.run] at hr
      cases hr
    · rcases update_some hw with ⟨rfl, rfl⟩ | ⟨_, hw'⟩
      · rw [ha.run] at hs
        cases hs
      · exact ho.bound a b v w r hv' hw' hr hs

theorem Move.run_eq {r : String} (hm : Move D L i t t') (hr : t'.run = some r) :
    t.run = some r ∨ ∀ j u, L.tries j = some u → u.run ≠ some r := by
  rcases hm.run with h | ⟨_, s, hs, hfree⟩
  · exact .inl (h ▸ hr)
  · rw [hs] at hr
    cases hr
    exact .inr hfree

theorem orderly_move (ho : Orderly L) (ht : L.tries i = some t) (hm : Move D L i t t') :
    Orderly (L.setTry i t') where
  distinct := ho.distinct
  newest := by
    intro k j h
    obtain ⟨u, hu, hn⟩ := ho.newest k j h
    by_cases he : j = i
    · subst he
      rw [ht] at hu
      cases hu
      exact ⟨t', Function.update_self .., hm.node.trans hn⟩
    · exact ⟨u, (Function.update_of_ne he ..).trans hu, hn⟩
  single := by
    intro a b v w hv hw hn hav haw
    rcases update_some hv with ⟨rfl, rfl⟩ | ⟨_, hv'⟩
    · rcases update_some hw with ⟨rfl, _⟩ | ⟨_, hw'⟩
      · rfl
      · exact ho.single a b t w ht hw' (hm.node ▸ hn) (hm.settled hav) haw
    · rcases update_some hw with ⟨rfl, rfl⟩ | ⟨_, hw'⟩
      · exact ho.single a b v t hv' ht (hn.trans hm.node) hav (hm.settled haw)
      · exact ho.single a b v w hv' hw' hn hav haw
  idle := by
    intro a v hv hav
    rcases update_some hv with ⟨rfl, rfl⟩ | ⟨_, hv'⟩
    · rcases hm.artifact with h | ⟨h, _⟩
      · exact h.trans (ho.idle a t ht (hm.settled hav))
      · rw [h] at hav
        cases hav
    · exact ho.idle a v hv' hav
  bound := by
    intro a b v w r hv hw hr hs
    rcases update_some hv with ⟨rfl, rfl⟩ | ⟨_, hv'⟩
    · rcases update_some hw with ⟨rfl, _⟩ | ⟨_, hw'⟩
      · rfl
      · rcases hm.run_eq hr with hr' | hfree
        · exact ho.bound a b t w r ht hw' hr' hs
        · exact absurd hs (hfree b w hw')
    · rcases update_some hw with ⟨rfl, rfl⟩ | ⟨_, hw'⟩
      · rcases hm.run_eq hs with hs' | hfree
        · exact ho.bound a b v t r hv' ht hr hs'
        · exact absurd hr (hfree a v hv')
      · exact ho.bound a b v w r hv' hw' hr hs

theorem Step.orderly (ho : Orderly L) (h : Step D L L') : Orderly L' := by
  rcases h.tries_cases with ⟨ht, hd, hl⟩ | ⟨i, t, f, ha, ht, hd, hl⟩ | ⟨i, t, t', hi, hm, ht, hd, hl⟩
  · exact orderly_congr ho ht hd hl
  · exact orderly_congr (orderly_admission ho ha) ht hd hl
  · exact orderly_congr (orderly_move ho hi hm) ht hd hl

theorem Steps.orderly (ho : Orderly L) (h : Steps D L L') : Orderly L' := by
  induction h with
  | refl => exact ho
  | tail _ st ih => exact st.orderly ih

/-- What no run takes back from an attempt. -/
structure Kept (t t' : Try) : Prop where
  node : t'.node = t.node
  revision : t'.revision = t.revision
  contractHash : t'.contractHash = t.contractHash
  pins : t'.pins = t.pins
  settled : t.status.active = false → t'.status.active = false
  abandoned : t.status = .abandoned → t'.status = .abandoned ∧ t'.abandonKind = t.abandonKind
  launched : t.status ≠ .reserved → t'.status ≠ .reserved
  artifact : ∀ a, t.artifact = some a → t'.artifact = some a
  run : ∀ r, t.run = some r → t'.run = some r
  fence : t.fence ≤ t'.fence
  owner : t'.fence = t.fence → t'.owner = t.owner

theorem Kept.refl (t : Try) : Kept t t where
  node := rfl
  revision := rfl
  contractHash := rfl
  pins := rfl
  settled := id
  abandoned := fun hs => ⟨hs, rfl⟩
  launched := id
  artifact := fun _ h => h
  run := fun _ h => h
  fence := Nat.le_refl _
  owner := fun _ => rfl

theorem Kept.trans {v : Try} (h : Kept t u) (k : Kept u v) : Kept t v where
  node := k.node.trans h.node
  revision := k.revision.trans h.revision
  contractHash := k.contractHash.trans h.contractHash
  pins := k.pins.trans h.pins
  settled := fun hs => k.settled (h.settled hs)
  abandoned := by
    intro hs
    obtain ⟨hu, hkind⟩ := h.abandoned hs
    obtain ⟨hv, hkind'⟩ := k.abandoned hu
    exact ⟨hv, hkind'.trans hkind⟩
  launched := fun hs => k.launched (h.launched hs)
  artifact := fun a ha => k.artifact a (h.artifact a ha)
  run := fun r hr => k.run r (h.run r hr)
  fence := Nat.le_trans h.fence k.fence
  owner := by
    intro he
    have hf := h.fence
    have kf := k.fence
    exact (k.owner (by omega)).trans (h.owner (by omega))

theorem Move.kept (ho : Orderly L) (ht : L.tries i = some t) (hm : Move D L i t t') : Kept t t' where
  node := hm.node
  revision := hm.revision
  contractHash := hm.contractHash
  pins := hm.pins
  settled := by
    intro hs
    cases ha : t'.status.active with
    | false => rfl
    | true => exact hs ▸ (hm.settled ha).symm
  abandoned := hm.abandoned
  launched := fun hs hr => hs (hm.reserved hr)
  artifact := by
    intro a ha
    rcases hm.artifact with h | ⟨_, h | h⟩
    · exact h.trans ha
    · rw [h] at ha
      cases ha
    · rw [ho.idle i t ht h] at ha
      cases ha
  run := by
    intro r hr
    rcases hm.run with h | ⟨h, _⟩
    · exact h.trans hr
    · rw [h] at hr
      cases hr
  fence := by
    rcases hm.owner with ⟨_, h⟩ | h
    · exact h
    · exact Nat.le_of_lt h
  owner := by
    intro he
    rcases hm.owner with ⟨h, _⟩ | h
    · exact h
    · omega

theorem Step.kept (ho : Orderly L) (h : Step D L L') (hi : L.tries i = some t) :
    ∃ t', L'.tries i = some t' ∧ Kept t t' := by
  rcases h.tries_cases with ⟨ht, _⟩ | ⟨j, u, f, ha, ht, _⟩ | ⟨j, u, u', hj, hm, ht, _⟩
  · exact ⟨t, ht ▸ hi, Kept.refl t⟩
  · have hne : i ≠ j := by
      rintro rfl
      rw [ha.fresh] at hi
      cases hi
    exact ⟨t, by rw [ht, Function.update_of_ne hne, hi], Kept.refl t⟩
  · by_cases he : i = j
    · subst he
      rw [hi] at hj
      cases hj
      exact ⟨u', by rw [ht, Function.update_self], hm.kept ho hi⟩
    · exact ⟨t, by rw [ht, Function.update_of_ne he, hi], Kept.refl t⟩

/-- Attempts are never removed, and what `Kept` lists survives every run. -/
theorem Steps.kept (ho : Orderly L) (h : Steps D L L') (hi : L.tries i = some t) :
    ∃ t', L'.tries i = some t' ∧ Kept t t' := by
  induction h with
  | refl => exact ⟨t, hi, Kept.refl t⟩
  | tail path st ih =>
    obtain ⟨u, hu, hk⟩ := ih
    obtain ⟨v, hv, hk'⟩ := st.kept (Steps.orderly ho path) hu
    exact ⟨v, hv, hk.trans hk'⟩

end AItelier.Ledger
