import AItelier.Seeds.Immutable

namespace AItelier.Seeds

open AItelier.Lib
open AItelier.State (strip)

variable {β : Type} {host : Host β} {seed : Option (Dir β)} {C : Request β → Prop}
  {world world' : World β} {phase : Phase β} {q : Request β} {d : Dir β} {m : Marker β}

def Published (world : World β) (d : Dir β) (m : Marker β) : Prop := world.seed = some d ∧ d.marker = some m

/-- Nothing may replace the directory any more. -/
def Occupied (world : World β) : Prop := ∃ d, world.seed = some d ∧ ¬ d.empty

/-- A directory that is not empty stays as it is. -/
def Keeps (world world' : World β) : Prop := ∀ d, world.seed = some d → ¬ d.empty → world'.seed = some d

theorem Keeps.refl (world : World β) : Keeps world world := fun _ h _ => h

theorem Published.occupied (h : Published world d m) : Occupied world :=
  ⟨d, h.1, fun he => by cases he.2.symm.trans h.2⟩

theorem Published.keeps (h : Published world d m) (hk : Keeps world world') : Published world' d m := by
  refine ⟨hk d h.1 ?_, h.2⟩
  intro he
  have hm := h.2
  rw [he.2] at hm
  cases hm

theorem Occupied.keeps (h : Occupied world) (hk : Keeps world world') : Occupied world' := by
  obtain ⟨d, hd, hne⟩ := h
  exact ⟨d, hk d hd hne, hne⟩

/-- What is there was there at first, is empty, or was published by one of the calls. -/
def Origin (host : Host β) (seed : Option (Dir β)) (C : Request β → Prop) (world : World β) : Prop :=
  ∀ d, world.seed = some d → d.empty ∨ seed = some d ∨ ∃ q, C q ∧ Of host q d

/-- What each phase may rely on. -/
def Sound (host : Host β) (C : Request β → Prop) (world : World β) : Phase β → Prop
  | .ended (.accepted q generation) => C q ∧ ∃ d m, Published world d m ∧ m.generation = generation ∧
      (Of host q d ∨ Matches host q d m)
  | .ended (.refused _ _) => Occupied world
  | .ended (.texts m got) => ∃ d, Published world d m ∧ Reads host d m.files got
  | .ended _ => True
  | .asking q late | .listing q late => C q ∧ (late = true → Occupied world)
  | .reading q _ names got => C q ∧ ∃ d m done, Published world d m ∧ m.files = done ++ names ∧ Reads host d done got
  | .comparing q _ got => C q ∧ ∃ d m, Published world d m ∧ Reads host d m.files got
  | .answering q => C q ∧ ∃ d m, Published world d m ∧ Matches host q d m
  | .entering q | .scanning q => C q
  | .staging q rest files => C q ∧ ∃ done, q.files = done ++ rest ∧ files = done.foldl write [] ∧
      ∀ e ∈ done, ∃ part, place e.1 = .inside part
  | .marking q files => C q ∧ files = q.files.foldl write [] ∧ ∀ e ∈ q.files, ∃ part, place e.1 = .inside part
  | .clearing q d | .removing q d | .landing q d => C q ∧ Of host q d
  | .checking _ | .naming _ => True
  | .testing m names => ∃ d done, Published world d m ∧ m.files = done ++ names
  | .opening m name names => ∃ d done, Published world d m ∧ m.files = done ++ name :: names
  | .taking m names got => ∃ d done, Published world d m ∧ m.files = done ++ names ∧ Reads host d done got

section Keeping

theorem Sound.keeps (h : Sound host C world phase) (hk : Keeps world world') : Sound host C world' phase := by
  cases phase with
  | ended o =>
    cases o with
    | accepted q generation =>
      obtain ⟨hq, d, m, hp, h⟩ := h
      exact ⟨hq, d, m, hp.keeps hk, h⟩
    | refused q why => exact Occupied.keeps h hk
    | texts m got =>
      obtain ⟨d, hp, h⟩ := h
      exact ⟨d, hp.keeps hk, h⟩
    | _ => trivial
  | asking q late => exact ⟨h.1, fun hl => (h.2 hl).keeps hk⟩
  | listing q late => exact ⟨h.1, fun hl => (h.2 hl).keeps hk⟩
  | reading q late names got =>
    obtain ⟨hq, d, m, done, hp, h⟩ := h
    exact ⟨hq, d, m, done, hp.keeps hk, h⟩
  | comparing q late got =>
    obtain ⟨hq, d, m, hp, h⟩ := h
    exact ⟨hq, d, m, hp.keeps hk, h⟩
  | answering q =>
    obtain ⟨hq, d, m, hp, h⟩ := h
    exact ⟨hq, d, m, hp.keeps hk, h⟩
  | testing m names =>
    obtain ⟨d, done, hp, h⟩ := h
    exact ⟨d, done, hp.keeps hk, h⟩
  | opening m name names =>
    obtain ⟨d, done, hp, h⟩ := h
    exact ⟨d, done, hp.keeps hk, h⟩
  | taking m names got =>
    obtain ⟨d, done, hp, h⟩ := h
    exact ⟨d, done, hp.keeps hk, h⟩
  | _ => exact h

theorem Sound.ite {c : Prop} [Decidable c] {phase' : Phase β} (h : Sound host C world phase)
    (h' : Sound host C world phase') : Sound host C world (if c then phase else phase') := by
  split
  · exact h
  · exact h'

/-- A published name leads inside, to a file that is there. -/
theorem fetched_of_published (unmarked : ∀ d ∈ seed, d.marker = none) (plain : ∀ q, C q → Plain q)
    (ho : Origin host seed C world) (hp : Published world d m) {name : String} (hn : name ∈ m.files) (w : Outside β) :
    ∃ text, d.text? host name = some text ∧ fetched host world w name = some text := by
  have hof : ∃ q, C q ∧ Of host q d := by
    rcases ho d hp.1 with hempty | hseed | hof
    · exact ((hp.occupied).elim (fun d' h => h.2 (by rw [hp.1] at h; exact Option.some.inj h.1 ▸ hempty))).elim
    · have hnone := unmarked d hseed
      rw [hp.2] at hnone
      cases hnone
    · exact hof
  obtain ⟨q, hq, hof⟩ := hof
  obtain ⟨m', hm', hnames, _⟩ := hof.marker
  obtain rfl := Option.some.inj (hp.2.symm.trans hm')
  obtain ⟨e, he, rfl⟩ := List.mem_map.mp ((hnames name).mp hn)
  obtain ⟨e', _, _, htext⟩ := hof.text (plain q hq) he
  refine ⟨e'.2, htext, ?_⟩
  obtain ⟨part, hpart⟩ := hof.2 e he
  rw [fetched, hp.1]
  dsimp only
  rw [fetch, hpart]
  exact htext

theorem stage_eq (hplain : Plain q) {w : Outside β} {e : String × String} (he : e ∈ q.files)
    {rest files : Entries String String} :
    stage world w q e rest files = (world, .ended .failed) ∨
      (stage world w q e rest files = (world, .staging q rest (write files e)) ∧ ∃ part, place e.1 = .inside part) := by
  unfold stage
  dsimp only
  split
  · next part hpart =>
    split_ifs
    · exact .inl rfl
    · exact .inr ⟨rfl, part, hpart⟩
  · exact .inl rfl
  · next hout => exact ((hplain e he).1 hout).elim

end Keeping

section Effects

variable [DecidableEq β] (unmarked : ∀ d ∈ seed, d.marker = none) (plain : ∀ q, C q → Plain q)

include plain in
/-- All that an effect can do to the directory: take an empty one away, or put a
whole generation where none is. -/
theorem world_nextEffect (h : Sound host C world phase) (w : Outside β) :
    (nextEffect host world w phase).1 = world ∨
      (∃ old, world.seed = some old ∧ old.empty ∧ (nextEffect host world w phase).1 = ⟨none⟩) ∨
      ∃ q d, C q ∧ Of host q d ∧ (∀ old ∈ world.seed, old.empty) ∧
        (nextEffect host world w phase).1 = ⟨some d⟩ := by
  cases phase with
  | staging q rest files =>
    left
    cases rest with
    | nil => rfl
    | cons e rest =>
      obtain ⟨hq, done, hfiles, _⟩ := h
      have he : e ∈ q.files := hfiles ▸ List.mem_append_right done List.mem_cons_self
      rcases @stage_eq β world q (plain q hq) w e he rest files with heq | ⟨heq, _⟩
      · rw [nextEffect, heq]
      · rw [nextEffect, heq]
  | removing q d =>
    rw [nextEffect]
    split
    · exact .inl rfl
    · next old hold =>
      dsimp only
      split_ifs with hempty
      · exact .inr (.inl ⟨old, hold, hempty, rfl⟩)
      · exact .inl rfl
  | landing q d =>
    rw [nextEffect]
    split_ifs with hfree
    · exact .inr (.inr ⟨q, d, h.1, h.2, hfree, rfl⟩)
    · exact .inl rfl
  | reading q late names got =>
    left
    cases names with
    | nil => rfl
    | cons name names => rw [nextEffect]; split <;> rfl
  | comparing q late got =>
    left
    rw [nextEffect]
    split
    · rfl
    · split <;> rfl
  | testing m names =>
    left
    cases names with
    | nil => rfl
    | cons name names => rfl
  | taking m names got =>
    left
    cases names with
    | nil => rfl
    | cons name names => rw [nextEffect]; split <;> rfl
  | listing q late => left; rw [nextEffect]; split <;> rfl
  | scanning q => left; rw [nextEffect]; split <;> rfl
  | naming seedFile => left; rw [nextEffect]; split <;> rfl
  | opening m name names => left; rw [nextEffect]; split <;> rfl
  | _ => exact .inl rfl

include plain in
theorem keeps_nextEffect (h : Sound host C world phase) (w : Outside β) :
    Keeps world (nextEffect host world w phase).1 := by
  intro d hd hne
  rcases world_nextEffect plain h w with he | ⟨old, hold, hempty, _⟩ | ⟨q, d', _, _, hfree, _⟩
  · rw [he]
    exact hd
  · rw [hd] at hold
    exact (hne (Option.some.inj hold ▸ hempty)).elim
  · exact (hne (hfree d hd)).elim

include plain in
theorem origin_nextEffect (h : Sound host C world phase) (ho : Origin host seed C world) (w : Outside β) :
    Origin host seed C (nextEffect host world w phase).1 := by
  rcases world_nextEffect plain h w with he | ⟨old, hold, hempty, he⟩ | ⟨q, d', hq, hof, _, he⟩
  · rw [he]
    exact ho
  · intro d hd
    rw [he] at hd
    cases hd
  · intro d hd
    rw [he] at hd
    exact .inr (.inr ⟨q, hq, Option.some.inj hd ▸ hof⟩)

include unmarked plain in
/-- An effect leaves its own phase with what that may rely on. -/
theorem sound_nextEffect (h : Sound host C world phase) (ho : Origin host seed C world) (w : Outside β) :
    Sound host C (nextEffect host world w phase).1 (nextEffect host world w phase).2 := by
  have hnone : ∀ {q late}, C q ∧ (late = true → Occupied world) → Sound host C world (nonePublished q late) := by
    intro q late hq
    cases late with
    | false => exact hq.1
    | true => exact hq.2 rfl
  have hmarker : ∀ {m}, world.marker = some m → ∃ d, Published world d m := fun hm =>
    (Option.bind_eq_some_iff.mp hm)
  cases phase with
  | ended o => exact h
  | asking q late =>
    rw [nextEffect]
    exact Sound.ite h (hnone h)
  | listing q late =>
    rw [nextEffect]
    split
    · exact hnone h
    · next m hm =>
      obtain ⟨d, hp⟩ := hmarker hm
      exact ⟨h.1, d, m, [], hp, rfl, .nil⟩
  | reading q late names got =>
    obtain ⟨hq, d, m, done, hp, hsplit, hreads⟩ := h
    cases names with
    | nil =>
      rw [List.append_nil] at hsplit
      exact ⟨hq, d, m, hp, hsplit ▸ hreads⟩
    | cons name names =>
      obtain ⟨text, htext, hfetch⟩ := fetched_of_published unmarked plain ho hp
        (hsplit ▸ List.mem_append_right done List.mem_cons_self) w
      rw [nextEffect, hfetch]
      refine ⟨hq, d, m, done ++ [name], hp, by rw [hsplit, List.append_assoc]; rfl, ?_⟩
      exact List.rel_append hreads (.cons ⟨rfl, text, htext, rfl⟩ .nil)
  | comparing q late got =>
    obtain ⟨hq, d, m, hp, hreads⟩ := h
    have hm : world.marker = some m := by rw [World.marker, hp.1]; exact hp.2
    rw [nextEffect, hm]
    dsimp only
    split
    · next hsame => exact ⟨hq, d, m, hp, got, hreads, hsame⟩
    · exact hp.occupied
  | answering q =>
    obtain ⟨hq, d, m, hp, hmatch⟩ := h
    have hm : world.marker = some m := by rw [World.marker, hp.1]; exact hp.2
    rw [nextEffect, hm]
    exact ⟨hq, d, m, hp, rfl, .inr hmatch⟩
  | entering q =>
    rw [nextEffect]
    exact Sound.ite h ⟨h, [], rfl, rfl, by intro e he; cases he⟩
  | scanning q =>
    rw [nextEffect]
    split
    · trivial
    · next d hd =>
      dsimp only
      split_ifs with hfiles
      · exact ⟨d, hd, fun he => hfiles he.1⟩
      · exact ⟨h, [], rfl, rfl, by intro e he; cases he⟩
  | staging q rest files =>
    obtain ⟨hq, done, hsplit, hfiles, hplaces⟩ := h
    cases rest with
    | nil =>
      rw [List.append_nil] at hsplit
      exact ⟨hq, hsplit ▸ hfiles, hsplit ▸ hplaces⟩
    | cons e rest =>
      have he : e ∈ q.files := hsplit ▸ List.mem_append_right done List.mem_cons_self
      rcases @stage_eq β world q (plain q hq) w e he rest files with heq | ⟨heq, hpart⟩
      · rw [nextEffect, heq]
        trivial
      · rw [nextEffect, heq]
        refine ⟨hq, done ++ [e], by rw [hsplit, List.append_assoc]; rfl, ?_, ?_⟩
        · rw [List.foldl_append, ← hfiles]
          rfl
        · intro e' he'
          rcases List.mem_append.mp he' with he' | he'
          · exact hplaces e' he'
          · exact List.mem_singleton.mp he' ▸ hpart
  | marking q files =>
    obtain ⟨hq, hfiles, hplaces⟩ := h
    rw [nextEffect]
    exact Sound.ite trivial ⟨hq, ⟨w.fresh, by rw [hfiles]⟩, hplaces⟩
  | clearing q d =>
    rw [nextEffect]
    exact Sound.ite h h
  | removing q d =>
    rw [nextEffect]
    split
    · exact h
    · exact h
  | landing q d =>
    obtain ⟨hq, hof⟩ := h
    rw [nextEffect]
    split_ifs with hfree
    · obtain ⟨m, hm, _⟩ := hof.marker
      exact ⟨hq, d, m, ⟨rfl, hm⟩, by rw [hm]; rfl, .inl hof⟩
    · refine ⟨hq, fun _ => ?_⟩
      push Not at hfree
      obtain ⟨old, hold, hne⟩ := hfree
      exact ⟨old, hold, hne⟩
  | checking seedFile =>
    rw [nextEffect]
    exact Sound.ite trivial trivial
  | naming seedFile =>
    rw [nextEffect]
    split
    · trivial
    · next m hm =>
      obtain ⟨d, hp⟩ := hmarker hm
      exact Sound.ite trivial ⟨d, [], hp, rfl⟩
  | testing m names =>
    obtain ⟨d, done, hp, hsplit⟩ := h
    cases names with
    | nil => exact ⟨d, [], hp, rfl, .nil⟩
    | cons name names =>
      rw [nextEffect]
      exact Sound.ite ⟨d, done, hp, hsplit⟩ trivial
  | opening m name names =>
    obtain ⟨d, done, hp, hsplit⟩ := h
    rw [nextEffect]
    split
    · trivial
    · next text _ =>
      have hnext : Sound host C world (.testing m names) :=
        ⟨d, done ++ [name], hp, by rw [hsplit, List.append_assoc]; rfl⟩
      generalize strip (readText text) = line
      exact Sound.ite trivial hnext
  | taking m names got =>
    obtain ⟨d, done, hp, hsplit, hreads⟩ := h
    cases names with
    | nil =>
      rw [List.append_nil] at hsplit
      exact ⟨d, hp, hsplit ▸ hreads⟩
    | cons name names =>
      obtain ⟨text, htext, hfetch⟩ := fetched_of_published unmarked plain ho hp
        (hsplit ▸ List.mem_append_right done List.mem_cons_self) w
      rw [nextEffect, hfetch]
      refine ⟨d, done ++ [name], hp, by rw [hsplit, List.append_assoc]; rfl, ?_⟩
      exact List.rel_append hreads (.cons ⟨rfl, text, htext, rfl⟩ .nil)

end Effects

section Runs

variable [DecidableEq β] {es fs : List (Nat × Action β)} {p : Nat}

/-- Every call so far names plain files, and is one of `C`. -/
def Calls (C : Request β → Prop) (es : List (Nat × Action β)) : Prop := ∀ e ∈ es, ∀ q, e.2 = .publish q → C q

theorem sound_after (unmarked : ∀ d ∈ seed, d.marker = none) (plain : ∀ q, C q → Plain q) (h : Calls C es) :
    Origin host seed C (after host seed es).shared ∧
      ∀ p, Sound host C (after host seed es).shared ((after host seed es).phase p) := by
  have hact : ∀ s ph (a : Action β), Origin host seed C s → Sound host C s ph → (∀ q, a = .publish q → C q) →
      Keeps s (act host s ph a).1 ∧ Origin host seed C (act host s ph a).1 ∧
        Sound host C (act host s ph a).1 (act host s ph a).2 := by
    intro s ph a ho hs hok
    cases a with
    | publish q => exact ⟨Keeps.refl s, ho, hok q rfl, by intro h; cases h⟩
    | read seedFile => exact ⟨Keeps.refl s, ho, trivial⟩
    | next w =>
      exact ⟨keeps_nextEffect plain hs w, origin_nextEffect plain hs ho w,
        sound_nextEffect unmarked plain hs ho w⟩
  refine @Callers.joint_invariant _ _ _ _ _ _ (fun a => ∀ q, a = .publish q → C q) ?_ ?_ ?_ _ ?_ ?_ _ ?_
  · exact fun s ph a ho hs hok => (hact s ph a ho hs hok).2.1
  · exact fun s ph a ho hs hok => (hact s ph a ho hs hok).2.2
  · exact fun s ph a ph' ho hs hok hs' => hs'.keeps (hact s ph a ho hs hok).1
  · exact fun d hd => .inr (.inl hd)
  · exact fun p => trivial
  · exact fun e he => h e he

omit [DecidableEq β] in
theorem Calls.left (h : Calls C (es ++ fs)) : Calls C es := fun e he => h e (List.mem_append_left fs he)

/-- What is published stays, whatever is called. -/
theorem published_after (unmarked : ∀ d ∈ seed, d.marker = none) (plain : ∀ q, C q → Plain q)
    (h : Calls C (es ++ fs)) (hp : Published (after host seed es).shared d m) :
    Published (after host seed (es ++ fs)).shared d m := by
  induction fs using List.reverseRecOn with
  | nil => rwa [List.append_nil]
  | append_singleton fs e ih =>
    rw [← List.append_assoc] at h ⊢
    have hbefore := ih h.left
    obtain ⟨ho, hs⟩ := @sound_after _ host _ _ _ _ unmarked plain h.left
    rw [after, run_append, run_cons, run_nil, Callers.shared_step]
    change Published (act host (after host seed (es ++ fs)).shared _ e.2).1 d m
    cases ha : e.2 with
    | publish q => exact hbefore
    | read seedFile => exact hbefore
    | next w => exact hbefore.keeps (keeps_nextEffect plain (hs e.1) w)

/-- What a call keeps over its own effects, in a run of calls of `C`. -/
theorem call_steps {P : List (Action β) → Phase β → Prop} (hown : ∀ a ∈ Callers.own p fs, ∃ w, a = .next w)
    (hstart : P [] (.asking q false))
    (hstep : ∀ fs₁ w fs₂, fs = fs₁ ++ (p, .next w) :: fs₂ →
      P (Callers.own p fs₁) ((after host seed (es ++ (p, .publish q) :: fs₁)).phase p) →
      P (Callers.own p fs₁ ++ [.next w]) (nextEffect host (after host seed (es ++ (p, .publish q) :: fs₁)).shared w
        ((after host seed (es ++ (p, .publish q) :: fs₁)).phase p)).2) :
    P (Callers.own p fs) ((after host seed (es ++ (p, .publish q) :: fs)).phase p) := by
  have hrun (fs : List (Nat × Action β)) : after host seed (es ++ (p, .publish q) :: fs) =
      run (Callers.step (act host)) (Callers.step (act host) (after host seed es) (p, .publish q)) fs := by
    rw [after, run_append, run_cons]
    rfl
  rw [hrun]
  apply Callers.own_steps
  · rw [Callers.phase_self]
    exact hstart
  · intro fs₁ a fs₂ hfs hP
    have hin : a ∈ Callers.own p fs := by
      rw [hfs, Callers.own_append, ← List.singleton_append, Callers.own_append, Callers.own_self]
      exact List.mem_append_right _ (List.mem_append_left _ (List.mem_singleton_self a))
    obtain ⟨w, rfl⟩ := hown a hin
    rw [← hrun] at hP ⊢
    exact hstep fs₁ w fs₂ hfs hP

end Runs

section Again

variable [DecidableEq β]

/-- Where a call for what is published already may stand. -/
def Republishing (host : Host β) (q : Request β) (d : Dir β) (m : Marker β) : Phase β → Prop
  | .asking q' late | .listing q' late => q' = q ∧ late = false
  | .reading q' late names got => q' = q ∧ late = false ∧ ∃ done, m.files = done ++ names ∧ Reads host d done got
  | .comparing q' late got => q' = q ∧ late = false ∧ Reads host d m.files got
  | .answering q' => q' = q ∧ Readable host q
  | .ended (.accepted q' generation) => q' = q ∧ generation = m.generation ∧ Readable host q
  | .ended (.refused q' why) => q' = q ∧ why = .different ∧ ¬ Readable host q
  | _ => False

variable {q₀ : Request β}

omit [DecidableEq β] in
/-- What is read back of `d` is what `q` asks for exactly when it is readable. -/
theorem agrees_iff (hof : Of host q₀ d) (hplain : Plain q₀) (hsame : Same q₀ q)
    (hm : d.marker = some m) {got : Entries String String} (hgot : Reads host d m.files got) :
    Entries.Agree got q.files ∧ m.reviewInputBundle = q.reviewInputBundle ↔ Readable host q := by
  have hfiles : Entries.Agree got q.files ↔ Entries.Agree got q₀.files := by
    rw [Entries.agree_iff, Entries.agree_iff]
    exact forall_congr' (fun name => by rw [hsame.1 name])
  rw [hfiles, ← hsame.2, matches_iff hof hplain hm hgot]
  exact ⟨fun h => h.same hsame, fun h => h.same hsame.symm⟩

theorem republishing_nextEffect (unmarked : ∀ d ∈ seed, d.marker = none)
    (plain : ∀ q, C q → Plain q) (ho : Origin host seed C world) (hp : Published world d m) (hof : Of host q₀ d)
    (hplain : Plain q₀) (hsame : Same q₀ q) (h : Republishing host q d m phase) (w : Outside β) :
    Republishing host q d m (nextEffect host world w phase).2 := by
  have hm : world.marker = some m := by rw [World.marker, hp.1]; exact hp.2
  cases phase with
  | ended o => exact h
  | asking q' late =>
    rw [nextEffect, hm]
    exact h
  | listing q' late =>
    rw [nextEffect, hm]
    exact ⟨h.1, h.2, [], rfl, .nil⟩
  | reading q' late names got =>
    obtain ⟨rfl, rfl, done, hsplit, hreads⟩ := h
    cases names with
    | nil =>
      rw [List.append_nil] at hsplit
      exact ⟨rfl, rfl, hsplit ▸ hreads⟩
    | cons name names =>
      obtain ⟨text, htext, hfetch⟩ := fetched_of_published unmarked plain ho hp
        (hsplit ▸ List.mem_append_right done List.mem_cons_self) w
      rw [nextEffect, hfetch]
      refine ⟨rfl, rfl, done ++ [name], by rw [hsplit, List.append_assoc]; rfl, ?_⟩
      exact List.rel_append hreads (.cons ⟨rfl, text, htext, rfl⟩ .nil)
  | comparing q' late got =>
    obtain ⟨rfl, rfl, hreads⟩ := h
    have hiff := agrees_iff hof hplain hsame hp.2 hreads
    rw [nextEffect, hm]
    dsimp only
    split
    · next hc => exact ⟨rfl, hiff.mp hc⟩
    · next hc => exact ⟨rfl, rfl, fun hr => hc (hiff.mpr hr)⟩
  | answering q' =>
    rw [nextEffect, hm]
    exact ⟨h.1, rfl, h.2⟩
  | _ => exact h.elim

/-- How many effects such a call has still to take. -/
def remaining (m : Marker β) : Phase β → Nat
  | .asking _ _ => m.files.length + 5
  | .listing _ _ => m.files.length + 4
  | .reading _ _ names _ => names.length + 3
  | .comparing _ _ _ => 2
  | .answering _ => 1
  | _ => 0

theorem remaining_nextEffect (unmarked : ∀ d ∈ seed, d.marker = none) (plain : ∀ q, C q → Plain q)
    (ho : Origin host seed C world) (hp : Published world d m) (h : Republishing host q d m phase) (w : Outside β) :
    remaining m (nextEffect host world w phase).2 ≤ remaining m phase - 1 := by
  have hm : world.marker = some m := by rw [World.marker, hp.1]; exact hp.2
  cases phase with
  | ended o => exact Nat.le_refl 0
  | asking q' late =>
    rw [nextEffect, hm]
    exact Nat.le_refl _
  | listing q' late =>
    rw [nextEffect, hm]
    exact Nat.le_refl _
  | reading q' late names got =>
    obtain ⟨_, _, done, hsplit, _⟩ := h
    cases names with
    | nil => exact Nat.le_refl _
    | cons name names =>
      obtain ⟨text, _, hfetch⟩ := fetched_of_published unmarked plain ho hp
        (hsplit ▸ List.mem_append_right done List.mem_cons_self) w
      rw [nextEffect, hfetch]
      simp only [remaining, List.length_cons]
      omega
  | comparing q' late got =>
    rw [nextEffect, hm]
    dsimp only
    split
    · exact Nat.le_refl _
    · exact Nat.zero_le _
  | answering q' =>
    rw [nextEffect, hm]
    exact Nat.zero_le _
  | _ => exact h.elim

/-- A call that begins when `d` is published stands so until its process calls again, and has ever fewer
effects to take. -/
theorem republishing_after {es fs : List (Nat × Action β)} {p : Nat}
    (unmarked : ∀ d ∈ seed, d.marker = none) (plain : ∀ q, C q → Plain q)
    (hcalls : Calls C (es ++ (p, .publish q) :: fs)) (hp : Published (after host seed es).shared d m)
    (hof : Of host q₀ d) (hplain : Plain q₀) (hsame : Same q₀ q)
    (hown : ∀ a ∈ Callers.own p fs, ∃ w, a = .next w) :
    Republishing host q d m ((after host seed (es ++ (p, .publish q) :: fs)).phase p) ∧
      remaining m ((after host seed (es ++ (p, .publish q) :: fs)).phase p) ≤
        m.files.length + 5 - (Callers.own p fs).length := by
  refine call_steps (P := fun log phase => Republishing host q d m phase ∧
    remaining m phase ≤ m.files.length + 5 - log.length) hown ⟨⟨rfl, rfl⟩, Nat.le_refl _⟩ ?_
  rintro fs₁ w fs₂ rfl ⟨hstands, hfew⟩
  have hbefore : Calls C (es ++ (p, .publish q) :: fs₁) := by
    rw [← List.cons_append, ← List.append_assoc] at hcalls
    exact hcalls.left
  obtain ⟨ho, _⟩ := @sound_after _ host _ _ _ _ unmarked plain hbefore
  have hp' := published_after unmarked plain hbefore hp
  refine ⟨republishing_nextEffect unmarked plain ho hp' hof hplain hsame hstands w, ?_⟩
  have hless := remaining_nextEffect unmarked plain ho hp' hstands w
  rw [List.length_append, List.length_singleton]
  omega

end Again

end AItelier.Seeds
