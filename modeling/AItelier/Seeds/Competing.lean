import AItelier.Seeds.OneGeneration

namespace AItelier.Seeds

open AItelier.Lib

variable {β : Type} {host : Host β} {seed : Option (Dir β)} {C : Request β → Prop}
  {world : World β} {phase : Phase β} {q : Request β} {d : Dir β} {m : Marker β}

section Ending

variable [DecidableEq β] {es fs : List (Nat × Action β)} {p : Nat}

/-- The phases of a call that publishes `q`, if it does not fail. -/
def Publishing (q : Request β) : Phase β → Prop
  | .asking q' _ | .listing q' _ | .reading q' _ _ _ | .comparing q' _ _ | .answering q' | .entering q' | .scanning q'
  | .staging q' _ _ | .marking q' _ | .clearing q' _ | .removing q' _ | .landing q' _
  | .ended (.accepted q' _) | .ended (.refused q' _) => q' = q
  | _ => False

/-- How many effects it has still to take at most, where no call names more than `n` files. -/
def pending (n : Nat) : Phase β → Nat
  | .asking q late => if late then n + 5 else q.files.length + n + 14
  | .listing q late => if late then n + 4 else q.files.length + n + 13
  | .entering q => q.files.length + n + 12
  | .scanning q => q.files.length + n + 11
  | .staging _ rest _ => rest.length + n + 10
  | .marking _ _ => n + 9
  | .clearing _ _ => n + 8
  | .removing _ _ => n + 7
  | .landing _ _ => n + 6
  | .reading _ _ names _ => names.length + 3
  | .comparing _ _ _ => 2
  | .answering _ => 1
  | _ => 0

/-- The call never looks into a directory that has gone since it saw it. -/
def Standing (host : Host β) (seed : Option (Dir β)) (es : List (Nat × Action β)) (p : Nat) (q : Request β)
    (fs : List (Nat × Action β)) : Prop :=
  ∀ fs₁ a fs₂, fs = fs₁ ++ (p, a) :: fs₂ → (after host seed (es ++ (p, .publish q) :: fs₁)).phase p = .scanning q →
    (after host seed (es ++ (p, .publish q) :: fs₁)).shared.seed ≠ none

omit [DecidableEq β] in
theorem Of.files_length (h : Of host q d) (hm : d.marker = some m) : m.files.length = q.files.length := by
  obtain ⟨⟨generation, rfl⟩, _⟩ := h
  cases hm
  rw [List.length_insertionSort, List.length_map]

/-- Where the directory is there and no write fails, an effect goes on with the call. -/
theorem publishing_nextEffect {n : Nat} (unmarked : ∀ d ∈ seed, d.marker = none) (plain : ∀ q, C q → Plain q)
    (short : ∀ q, C q → q.files.length ≤ n) (ho : Origin host seed C world) (hs : Sound host C world phase)
    (hinside : ∀ e ∈ q.files, ∃ part, place e.1 = .inside part) {w : Outside β} (hw : w.fails = false)
    (hstands : phase = .scanning q → world.seed ≠ none) (h : Publishing q phase) :
    Publishing q (nextEffect host world w phase).2 ∧
      pending n (nextEffect host world w phase).2 ≤ pending n phase - 1 := by
  have hnone (late : Bool) : Publishing q (nonePublished q late) ∧
      pending n (nonePublished q late) ≤ if late then 0 else q.files.length + n + 12 := by
    cases late with
    | false => exact ⟨rfl, Nat.le_refl _⟩
    | true => exact ⟨rfl, Nat.le_refl _⟩
  cases phase with
  | ended o => exact ⟨h, Nat.zero_le _⟩
  | asking q' late =>
    obtain rfl : q' = q := h
    rw [nextEffect]
    dsimp only
    split
    · refine ⟨rfl, ?_⟩
      cases late with
      | false => exact Nat.le_refl _
      | true => exact Nat.le_refl _
    · refine ⟨(hnone late).1, (hnone late).2.trans ?_⟩
      cases late with
      | false => simp [pending]
      | true => exact Nat.zero_le _
  | listing q' late =>
    obtain rfl : q' = q := h
    cases hm : world.marker with
    | none =>
      rw [nextEffect, hm]
      refine ⟨(hnone late).1, (hnone late).2.trans ?_⟩
      cases late with
      | false => simp [pending]
      | true => exact Nat.zero_le _
    | some m =>
      rw [nextEffect, hm]
      obtain ⟨d, hd, hmark⟩ := Option.bind_eq_some_iff.mp hm
      have hfew : m.files.length ≤ n := by
        rcases ho d hd with hempty | hseed | ⟨q₀, hq₀, hof⟩
        · cases hempty.2.symm.trans hmark
        · cases (unmarked d hseed).symm.trans hmark
        · exact (hof.files_length hmark).trans_le (short q₀ hq₀)
      refine ⟨rfl, ?_⟩
      cases late with
      | false =>
        simp only [pending, Bool.false_eq_true, if_false]
        omega
      | true =>
        simp only [pending, if_true]
        omega
  | reading q' late names got =>
    obtain rfl : q' = q := h
    cases names with
    | nil => exact ⟨rfl, Nat.le_refl _⟩
    | cons name names =>
      obtain ⟨_, d, m, done, hp, hsplit, _⟩ := hs
      obtain ⟨text, _, hfetch⟩ := fetched_of_published unmarked plain ho hp
        (hsplit ▸ List.mem_append_right done List.mem_cons_self) w
      rw [nextEffect, hfetch]
      exact ⟨rfl, by simp [pending]⟩
  | comparing q' late got =>
    obtain rfl : q' = q := h
    obtain ⟨_, d, m, hp, _⟩ := hs
    have hm : world.marker = some m := by rw [World.marker, hp.1]; exact hp.2
    rw [nextEffect, hm]
    dsimp only
    split
    · exact ⟨rfl, Nat.le_refl _⟩
    · exact ⟨rfl, Nat.zero_le _⟩
  | answering q' => exact ⟨h, Nat.zero_le _⟩
  | entering q' =>
    obtain rfl : q' = q := h
    rw [nextEffect]
    dsimp only
    split
    · exact ⟨rfl, Nat.le_refl _⟩
    · exact ⟨rfl, by simp [pending]⟩
  | scanning q' =>
    obtain rfl : q' = q := h
    rw [nextEffect]
    cases hd : world.seed with
    | none => exact (hstands rfl hd).elim
    | some d =>
      dsimp only
      split
      · exact ⟨rfl, Nat.zero_le _⟩
      · exact ⟨rfl, Nat.le_refl _⟩
  | staging q' rest files =>
    obtain rfl : q' = q := h
    cases rest with
    | nil => exact ⟨rfl, by simp [pending, nextEffect]⟩
    | cons e rest =>
      obtain ⟨_, done, hfiles, _⟩ := hs
      obtain ⟨part, hpart⟩ := hinside e (hfiles ▸ List.mem_append_right done List.mem_cons_self)
      rw [nextEffect, stage, hpart]
      dsimp only
      rw [hw]
      refine ⟨rfl, ?_⟩
      simp only [pending, Bool.false_eq_true, if_false, List.length_cons]
      omega
  | marking q' files =>
    rw [nextEffect, hw]
    exact ⟨h, Nat.le_refl _⟩
  | clearing q' d =>
    rw [nextEffect]
    dsimp only
    split
    · exact ⟨h, Nat.le_refl _⟩
    · exact ⟨h, by simp [pending]⟩
  | removing q' d =>
    rw [nextEffect]
    split
    · exact ⟨h, Nat.le_refl _⟩
    · exact ⟨h, Nat.le_refl _⟩
  | landing q' d =>
    rw [nextEffect]
    split
    · exact ⟨h, Nat.zero_le _⟩
    · exact ⟨h, Nat.le_refl _⟩
  | _ => exact h.elim

theorem publishing_after {n : Nat} (unmarked : ∀ d ∈ seed, d.marker = none) (plain : ∀ q, C q → Plain q)
    (short : ∀ q, C q → q.files.length ≤ n) (hcalls : Calls C (es ++ (p, .publish q) :: fs))
    (hinside : ∀ e ∈ q.files, ∃ part, place e.1 = .inside part)
    (hown : ∀ a ∈ Callers.own p fs, ∃ w, a = .next w ∧ w.fails = false) (hstands : Standing host seed es p q fs) :
    Publishing q ((after host seed (es ++ (p, .publish q) :: fs)).phase p) ∧
      pending n ((after host seed (es ++ (p, .publish q) :: fs)).phase p) ≤
        q.files.length + n + 14 - (Callers.own p fs).length := by
  have hnext : ∀ a ∈ Callers.own p fs, ∃ w, a = .next w := by
    intro a ha
    obtain ⟨w, rfl, -⟩ := hown a ha
    exact ⟨w, rfl⟩
  refine call_steps (P := fun log phase => Publishing q phase ∧
    pending n phase ≤ q.files.length + n + 14 - log.length) hnext ⟨rfl, Nat.le_refl _⟩ ?_
  rintro fs₁ w fs₂ rfl ⟨hgoes, hfew⟩
  have hw : w.fails = false := by
    have hin : Action.next w ∈ Callers.own p (fs₁ ++ (p, .next w) :: fs₂) := by
      rw [Callers.own_append, ← List.singleton_append, Callers.own_append, Callers.own_self]
      exact List.mem_append_right _ (List.mem_append_left _ (List.mem_singleton_self _))
    obtain ⟨w', heq, hw'⟩ := hown _ hin
    exact Action.next.inj heq ▸ hw'
  have hbefore : Calls C (es ++ (p, .publish q) :: fs₁) := by
    rw [← List.cons_append, ← List.append_assoc] at hcalls
    exact hcalls.left
  obtain ⟨ho, hs⟩ := @sound_after _ host _ _ _ _ unmarked plain hbefore
  obtain ⟨hpublishing, hless⟩ := publishing_nextEffect unmarked plain short ho (hs p) hinside hw
    (hstands fs₁ (.next w) fs₂ rfl) hgoes
  refine ⟨hpublishing, ?_⟩
  rw [List.length_append, List.length_singleton]
  omega

/-- Whoever looks into a directory that has gone fails. -/
theorem failed_of_gone (hown : ∀ a ∈ Callers.own p fs, ∃ w, a = .next w) (h : ¬ Standing host seed es p q fs) :
    (after host seed (es ++ (p, .publish q) :: fs)).phase p = .ended .failed := by
  simp only [Standing, not_forall, not_not] at h
  obtain ⟨fs₁, a, fs₂, rfl, hscanning, hgone⟩ := h
  have hrun : after host seed (es ++ (p, .publish q) :: (fs₁ ++ (p, a) :: fs₂)) =
      run (Callers.step (act host)) (Callers.step (act host) (after host seed (es ++ (p, .publish q) :: fs₁))
        (p, a)) fs₂ := by
    rw [← List.cons_append, ← List.append_assoc, after, run_append, run_cons]
    rfl
  rw [Callers.own_append, ← List.singleton_append, Callers.own_append, Callers.own_self] at hown
  rw [hrun]
  refine Callers.own_steps (P := fun _ phase => phase = (.ended .failed : Phase β)) ?_ ?_
  · obtain ⟨w, rfl⟩ := hown a (List.mem_append_right _ (List.mem_append_left _ (List.mem_singleton_self a)))
    rw [Callers.phase_self]
    change (nextEffect host _ w _).2 = _
    rw [hscanning, nextEffect, hgone]
  · rintro gs₁ b gs₂ rfl hfailed
    have hin : b ∈ Callers.own p (gs₁ ++ (p, b) :: gs₂) := by
      rw [Callers.own_append, ← List.singleton_append, Callers.own_append, Callers.own_self]
      exact List.mem_append_right _ (List.mem_append_left _ (List.mem_singleton_self b))
    obtain ⟨w, rfl⟩ := hown b (List.mem_append_right _ (List.mem_append_right _ hin))
    rw [hfailed]
    rfl

/-- What no call has published is not there, if nothing was at first. -/
def Full (world : World β) : Prop := ∀ d, world.seed = some d → ¬ d.empty

omit [DecidableEq β] in
theorem Of.full (h : Of host q d) : Full ⟨some d⟩ := by
  intro d' hd hempty
  cases hd
  obtain ⟨m, hm, _⟩ := h.marker
  cases hempty.2.symm.trans hm

/-- A directory is looked into only after it was seen. -/
theorem seen_of_scanning {w : Outside β} (h : (nextEffect host world w phase).2 = .scanning q) :
    (nextEffect host world w phase).1 = world ∧ world.seed ≠ none := by
  have hnone (q' : Request β) (late : Bool) : nonePublished q' late ≠ .scanning q := by
    cases late <;> exact fun hq => by cases hq
  fun_cases nextEffect host world w phase <;> grind [nextEffect, stage]

theorem standing_of_none (plain : ∀ q, C q → Plain q) (hcalls : Calls C (es ++ (p, .publish q) :: fs)) :
    Standing host none es p q fs := by
  rintro fs₁ a fs₂ rfl hscanning
  have hbefore : Calls C (es ++ (p, .publish q) :: fs₁) := by
    rw [← List.cons_append, ← List.append_assoc] at hcalls
    exact hcalls.left
  have unmarked : ∀ d ∈ (none : Option (Dir β)), d.marker = none := fun d hd => by cases hd
  have hjoint : (Origin host none C (after host none (es ++ (p, .publish q) :: fs₁)).shared ∧
      Full (after host none (es ++ (p, .publish q) :: fs₁)).shared) ∧
      ∀ p', Sound host C (after host none (es ++ (p, .publish q) :: fs₁)).shared
        ((after host none (es ++ (p, .publish q) :: fs₁)).phase p') ∧
          (∀ q', (after host none (es ++ (p, .publish q) :: fs₁)).phase p' = .scanning q' →
            Occupied (after host none (es ++ (p, .publish q) :: fs₁)).shared) := by
    refine @Callers.joint_invariant _ _ _ (act host) (fun world => Origin host none C world ∧ Full world)
      (fun world phase => Sound host C world phase ∧ ∀ q', phase = .scanning q' → Occupied world)
      (fun a => ∀ q, a = .publish q → C q) ?_ ?_ ?_ _ ?_ ?_ _ ?_
    · rintro world phase (q' | seedFile | w) ⟨ho, hfull⟩ ⟨hs, -⟩ -
      · exact ⟨ho, hfull⟩
      · exact ⟨ho, hfull⟩
      · refine ⟨origin_nextEffect plain hs ho w, ?_⟩
        change Full (nextEffect host world w phase).1
        rcases world_nextEffect plain hs w with he | ⟨old, hold, hempty, -⟩ | ⟨q', d', -, hof, -, he⟩
        · rw [he]
          exact hfull
        · exact (hfull old hold hempty).elim
        · rw [he]
          exact hof.full
    · rintro world phase (q' | seedFile | w) ⟨ho, hfull⟩ ⟨hs, hseen⟩ hok
      · exact ⟨⟨hok q' rfl, fun h => by cases h⟩, fun q' h => by cases h⟩
      · exact ⟨trivial, fun q' h => by cases h⟩
      · refine ⟨sound_nextEffect unmarked plain hs ho w, fun q' hnext => ?_⟩
        obtain ⟨hsame, hthere⟩ := seen_of_scanning hnext
        obtain ⟨d, hd⟩ := Option.ne_none_iff_exists'.mp hthere
        change Occupied (nextEffect host world w phase).1
        rw [hsame]
        exact ⟨d, hd, hfull d hd⟩
    · rintro world phase (q' | seedFile | w) phase' ⟨ho, hfull⟩ ⟨hs, -⟩ - ⟨hs', hseen⟩
      · exact ⟨hs', hseen⟩
      · exact ⟨hs', hseen⟩
      · have hk := keeps_nextEffect plain hs w
        exact ⟨hs'.keeps hk, fun q' h => (hseen q' h).keeps hk⟩
    · exact ⟨fun d hd => absurd hd.symm (Option.some_ne_none d), fun d hd => absurd hd.symm (Option.some_ne_none d)⟩
    · exact fun p' => ⟨trivial, fun q' h => by cases h⟩
    · exact fun e he => hbefore e he
  obtain ⟨d, hd, -⟩ := (hjoint.2 p).2 q hscanning
  rw [hd]
  exact Option.some_ne_none d

end Ending

section Publication

variable [DecidableEq β]

omit [DecidableEq β] in
theorem Of.reads (h : Of host q d) (hplain : Plain q) (hm : d.marker = some m) :
    ∃ got, Reads host d m.files got := by
  obtain ⟨m', hm', hnames, _⟩ := h.marker
  obtain rfl := Option.some.inj (hm.symm.trans hm')
  have hall : ∀ names : List String, (∀ name ∈ names, name ∈ m.files) → ∃ got, Reads host d names got := by
    intro names
    induction names with
    | nil => exact fun _ => ⟨[], .nil⟩
    | cons name names ih =>
      intro hsub
      obtain ⟨got, hgot⟩ := ih (fun n hn => hsub n (List.mem_cons_of_mem _ hn))
      obtain ⟨e, he, hname⟩ := List.mem_map.mp ((hnames name).mp (hsub name List.mem_cons_self))
      obtain ⟨e', _, _, htext⟩ := h.text hplain he
      rw [hname] at htext
      exact ⟨(name, readText e'.2) :: got, .cons ⟨rfl, e'.2, htext, rfl⟩ hgot⟩
  exact hall m.files (fun _ h => h)

omit [DecidableEq β] in
theorem matches_of_accepted (hplain : Plain q) (hm : d.marker = some m) (h : Of host q d ∨ Matches host q d m)
    (hr : Readable host q) : Matches host q d m := by
  rcases h with hof | hmatch
  · obtain ⟨got, hgot⟩ := hof.reads hplain hm
    exact ⟨got, hgot, (matches_iff hof hplain hm hgot).mpr hr⟩
  · exact hmatch

omit [DecidableEq β] in
theorem Matches.same {q' : Request β} (h : Matches host q d m) (h' : Matches host q' d m) : Same q q' := by
  obtain ⟨got, hgot, hagree, hbundle⟩ := h
  obtain ⟨got', hgot', hagree', hbundle'⟩ := h'
  obtain rfl := hgot.unique hgot'
  rw [Entries.agree_iff] at hagree hagree'
  exact ⟨fun name => (hagree name).symm.trans (hagree' name), hbundle.symm.trans hbundle'⟩

/-- A seed of one file. -/
def plan (text : String) : Request Unit := ⟨[("plan.md", text)], none, List.nodup_singleton _⟩

/-- Bundles are not used, and every write succeeds. -/
def plainHost : Host Unit := ⟨fun _ => "", fun _ => true⟩

def calm : Outside Unit := ⟨"1", false, none, id⟩

def other : Outside Unit := ⟨"2", false, none, id⟩

/-- A call of the process `p`, and the effects that end it. -/
def whole (p : Nat) (a : Action Unit) : List (Nat × Action Unit) := (p, a) :: List.replicate 12 (p, .next calm)

/-- Two publishers whose effects alternate, and a reader after them. -/
def competing : List (Nat × Action Unit) :=
  (0, .publish (plan "a")) :: (1, .publish (plan "b")) ::
    ((List.replicate 17 [(0, .next calm), (1, .next other)]).flatten ++ whole 2 (.read "plan.md"))

/-- A directory that was empty at first: one call takes it away while another is about to look. -/
example :
    (after plainHost (some ⟨[], none⟩)
      ((0, .publish (plan "a")) :: (1, .publish (plan "b")) :: List.replicate 2 (1, .next calm) ++
        List.replicate 8 (0, .next calm) ++ [(1, .next calm)])).phase 1 = .ended .failed := by
  decide

end Publication

end AItelier.Seeds
