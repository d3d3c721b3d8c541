import AItelier.Registration.FileRollback

namespace AItelier.Registration

open AItelier.Lib AItelier.Lib.FileTree

section Trees

variable {proc : Process} {fs entry : Files} {p q : Path}

/-- The process reaches what was at `p` and inside it at entry, and what is there now. -/
structure Ready (proc : Process) (entry fs : Files) (p : Path) : Prop where
  before : Inside proc entry p
  now : Within proc fs p
  above : ∀ q ∈ ancestors p, fs.get q = none ∨ Usable proc fs q

theorem restore_special {mode : Nat} (h : fs.get p = some (.special mode)) (state : Option Saved) :
    restore proc p state fs = (fs, false) := by
  have hremove : remove proc p fs = (fs, false) := by
    rw [remove, h]
    dsimp only
    rw [rmtree, h]
  rw [restore.eq_def, hremove]
  rfl

theorem spares_refl (h : Ready proc entry fs p) : Spares proc p fs fs := ⟨fun _ _ _ => rfl, h.above⟩

theorem Ready.spares (h : Ready proc entry fs p) :
    Spares proc p fs (restore proc p (capture proc entry p) fs).1 := by
  by_cases hspecial : ∃ mode, fs.get p = some (.special mode)
  · obtain ⟨mode, hmode⟩ := hspecial
    rw [restore_special hmode]
    exact spares_refl h
  · exact (restore_through h.before h.now h.above (fun mode he => hspecial ⟨mode, he⟩)).2

/-- Restoring one path leaves another that is apart from it as ready as it was. -/
theorem Ready.other {fs' : Files} {r : Path} (h : Ready proc entry fs r) (hs : Spares proc p fs fs')
    (hpr : ¬ p <+: r) (hrp : ¬ r <+: p) :
    Ready proc entry fs' r ∧ ∀ q, r <+: q → fs'.get q = fs.get q := by
  have hbelow : ∀ q, r <+: q → fs'.get q = fs.get q := by
    intro q hq
    apply hs.same q
    · intro hp
      exact (List.prefix_or_prefix_of_prefix hp hq).elim hpr hrp
    · exact .inl (fun hin => hrp (hq.trans (mem_ancestors.mp hin).2.1))
  have habove : ∀ q ∈ ancestors r, ¬ p <+: q := fun q hq hp => hpr (hp.trans (mem_ancestors.mp hq).2.1)
  refine ⟨⟨h.before, ⟨?_, ?_, ?_⟩, ?_⟩, hbelow⟩
  · intro q hq hne hsome
    rw [hbelow q hq] at hsome
    obtain ⟨mode, hdir, hmode⟩ := h.now.inside q hq hne hsome
    exact ⟨mode, (hbelow _ (prefix_dropLast hq hne)).trans hdir, hmode⟩
  · intro q mode hq hdir
    rw [hbelow q hq] at hdir
    exact h.now.dirs q mode hq hdir
  · intro hsome q hq
    rw [hbelow r (List.prefix_refl r)] at hsome
    obtain ⟨mode, hdir, hmode⟩ := h.now.above hsome q hq
    exact ⟨mode, (hs.same q (habove q hq) (.inr (by rw [hdir]; rfl))).trans hdir, hmode⟩
  · intro q hq
    by_cases hin : q ∈ ancestors p
    · exact hs.made q hin
    · have hsame := hs.same q (habove q hq) (.inl hin)
      rcases h.above q hq with hnone | ⟨mode, hdir, hmode⟩
      · exact .inl (hsame.trans hnone)
      · exact .inr ⟨mode, hsame.trans hdir, hmode⟩

/-- What stands at `q`, at or inside the captured path `p`, once `p` is restored. -/
def restoredAt (entry fs : Files) (p q : Path) : Option Node :=
  match fs.get p with
  | some (.special _) => fs.get q
  | _ => (entry.get q).map keptAs

theorem Ready.restored (h : Ready proc entry fs p) (hq : p <+: q) :
    (restore proc p (capture proc entry p) fs).1.get q = restoredAt entry fs p q := by
  unfold restoredAt
  split
  · next mode hmode =>
    rw [restore_special hmode]
  · next hplain => exact (restore_through h.before h.now h.above hplain).1 q hq

/-- The captured paths are restored one after another, each as if it were alone. -/
theorem restoreEach_restored (l : List Path) (hready : ∀ p ∈ l, Ready proc entry fs p)
    (hapart : l.Pairwise (fun a b => ¬ a <+: b ∧ ¬ b <+: a)) :
    (∀ p ∈ l, ∀ q, p <+: q →
      (restoreEach proc (l.map (fun p => (p, capture proc entry p))) fs).1.get q = restoredAt entry fs p q) ∧
    ∀ q, (∀ p ∈ l, ¬ p <+: q ∧ ¬ q <+: p) →
      (restoreEach proc (l.map (fun p => (p, capture proc entry p))) fs).1.get q = fs.get q := by
  induction l generalizing fs with
  | nil => exact ⟨fun p hp => absurd hp List.not_mem_nil, fun _ _ => rfl⟩
  | cons p l ih =>
    obtain ⟨hfirst, hapart⟩ := List.pairwise_cons.mp hapart
    obtain ⟨hp, hready⟩ := List.forall_mem_cons.mp hready
    have hothers : ∀ r ∈ l, Ready proc entry (restore proc p (capture proc entry p) fs).1 r ∧
        ∀ q, r <+: q → (restore proc p (capture proc entry p) fs).1.get q = fs.get q :=
      fun r hr => (hready r hr).other hp.spares (hfirst r hr).1 (hfirst r hr).2
    obtain ⟨hrest, hsame⟩ := ih (fun r hr => (hothers r hr).1) hapart
    rw [List.map_cons, restoreEach]
    dsimp only
    refine ⟨?_, ?_⟩
    · intro r hr q hq
      rcases List.mem_cons.mp hr with rfl | hr
      · rw [hsame q, hp.restored hq]
        intro s hs
        refine ⟨fun hsq => ?_, fun hqs => (hfirst s hs).1 (hq.trans hqs)⟩
        exact (List.prefix_or_prefix_of_prefix hsq hq).elim (hfirst s hs).2 (hfirst s hs).1
      · rw [hrest r hr q hq, restoredAt, restoredAt, (hothers r hr).2 q hq, (hothers r hr).2 r (List.prefix_refl r)]
    · intro q hq
      obtain ⟨⟨hpq, hqp⟩, hq⟩ := List.forall_mem_cons.mp hq
      rw [hsame q hq]
      exact hp.spares.same q hpq (.inl (fun hin => hqp (mem_ancestors.mp hin).2.1))

theorem nodup_eraseDups (l : List Path) : l.eraseDups.Nodup := by
  induction hn : l.length using Nat.strongRecOn generalizing l with
  | ind n ih =>
    cases l with
    | nil => exact List.nodup_nil
    | cons a l =>
      rw [List.eraseDups_cons, List.nodup_cons]
      have hlt : (l.filter (fun b => !b == a)).length < n := by
        have hle := List.length_filter_le (fun b => !b == a) l
        rw [List.length_cons] at hn
        omega
      refine ⟨?_, ih _ hlt _ rfl⟩
      rw [List.mem_eraseDups, List.mem_filter]
      exact fun h => by simp at h

theorem mem_outermost {paths : List Path} : p ∈ outermost paths ↔ p ∈ paths ∧ ∀ q ∈ paths, q <+: p → q = p := by
  rw [outermost, List.mem_eraseDups, List.mem_filter, Bool.not_eq_true', List.any_eq_false]
  refine and_congr_right (fun _ => forall₂_congr (fun q _ => ?_))
  rw [decide_eq_true_eq]
  constructor
  · intro h hpre
    by_contra hne
    exact h ⟨hne, hpre⟩
  · exact fun h hboth => hboth.1 (h hboth.2)

theorem outermost_apart (paths : List Path) : (outermost paths).Pairwise (fun a b => ¬ a <+: b ∧ ¬ b <+: a) := by
  have hnodup : (outermost paths).Nodup := nodup_eraseDups _
  apply hnodup.imp_of_mem
  intro a b ha hb hne
  constructor
  · exact fun h => hne ((mem_outermost.mp hb).2 a (mem_outermost.mp ha).1 h)
  · exact fun h => hne ((mem_outermost.mp ha).2 b (mem_outermost.mp hb).1 h).symm

theorem outermost_covers {paths : List Path} (h : p ∈ paths) : ∃ r ∈ outermost paths, r <+: p := by
  induction hn : p.length using Nat.strongRecOn generalizing p with
  | ind n ih =>
    by_cases hout : ∀ q ∈ paths, q <+: p → q = p
    · exact ⟨p, mem_outermost.mpr ⟨h, hout⟩, List.prefix_refl p⟩
    · push Not at hout
      obtain ⟨q, hq, hpre, hne⟩ := hout
      have hlt : q.length < n := by
        have hle := hpre.length_le
        have hlen : q.length ≠ p.length := fun he => hne (hpre.eq_of_length he)
        omega
      obtain ⟨r, hr, hrq⟩ := ih q.length hlt hq rfl
      exact ⟨r, hr, hrq.trans hpre⟩

end Trees

section Rows

variable {ρ : Type*} {schema : Schema ρ} {t t' : Table} {name name' : String}

theorem Db.rows_set (db : Db schema) (l : List ρ) (h : schema.admits t l = true) :
    (db.set t name l h).rows t' name' = if t' = t ∧ name' = name then l else db.rows t' name' := rfl

theorem insertEach_admitted (rows : List ρ) (db : Db schema) (h : schema.admits t (db.rows t name ++ rows) = true) :
    ∃ db', Db.insertEach t name rows db = some db' ∧
      ∀ t' name', db'.rows t' name' = if t' = t ∧ name' = name then db.rows t name ++ rows else db.rows t' name' := by
  induction rows generalizing db with
  | nil =>
    refine ⟨db, rfl, fun t' name' => ?_⟩
    split
    · next he => rw [he.1, he.2, List.append_nil]
    · rfl
  | cons row rows ih =>
    have hone : schema.admits t (db.rows t name ++ [row]) = true := by
      apply schema.admits_prefix t _ _ _ h
      exact ⟨rows, List.append_assoc _ _ _⟩
    have hset : (db.set t name _ hone).rows t name = db.rows t name ++ [row] := by
      rw [Db.rows_set, if_pos ⟨rfl, rfl⟩]
    have hrest : schema.admits t ((db.set t name _ hone).rows t name ++ rows) = true := by
      rw [hset, ← List.append_cons]
      exact h
    obtain ⟨db', hinsert, hrows⟩ := ih _ hrest
    refine ⟨db', ?_, fun t' name' => ?_⟩
    · rw [Db.insertEach, Db.insert, dif_pos hone, Option.bind_some]
      exact hinsert
    · rw [hrows, hset, Db.rows_set, ← List.append_cons]
      split <;> rfl

theorem restoreRows_admitted {saved : Table → String → List ρ} (h : ∀ t name, schema.admits t (saved t name) = true)
    (l : List (String × Table)) (db : Db schema) :
    ∃ db', restoreRows saved l db = some db' ∧
      ∀ t name, db'.rows t name = if (name, t) ∈ l then saved t name else db.rows t name := by
  induction l generalizing db with
  | nil => exact ⟨db, rfl, fun t name => (if_neg List.not_mem_nil).symm⟩
  | cons e l ih =>
    obtain ⟨name, t⟩ := e
    have hempty : (db.delete t name).rows t name = [] := if_pos ⟨rfl, rfl⟩
    obtain ⟨db₁, hinsert, hrows⟩ := @insertEach_admitted ρ schema t name (saved t name) (db.delete t name)
      (by rw [hempty]; exact h t name)
    obtain ⟨db', hrest, hall⟩ := ih db₁
    refine ⟨db', by rw [restoreRows, hinsert, Option.bind_some, hrest], fun t' name' => ?_⟩
    rw [hall, hrows, hempty, List.nil_append]
    by_cases hin : (name', t') ∈ l
    · rw [if_pos hin, if_pos (List.mem_cons_of_mem _ hin)]
    · rw [if_neg hin]
      by_cases he : t' = t ∧ name' = name
      · rw [if_pos he, if_pos (List.mem_cons.mpr (.inl (by rw [he.1, he.2]))), he.1, he.2]
      · have hne : (name', t') ∉ (name, t) :: l := by
          intro hcons
          rcases List.mem_cons.mp hcons with heq | hin'
          · exact he ⟨congrArg Prod.snd heq, congrArg Prod.fst heq⟩
          · exact hin hin'
        rw [if_neg he, if_neg hne, Db.delete, Db.rows_set, if_neg he]

theorem mem_covered {names : List String} :
    (name, t) ∈ names.flatMap (fun name => tables.map (fun t => (name, t))) ↔ name ∈ names := by
  have hall : t ∈ tables := by cases t <;> decide
  rw [List.mem_flatMap]
  constructor
  · rintro ⟨n, hn, hin⟩
    obtain ⟨_, -, heq⟩ := List.mem_map.mp hin
    have hname : n = name := congrArg Prod.fst heq
    exact hname ▸ hn
  · exact fun h => ⟨name, h, List.mem_map.mpr ⟨t, hall, rfl⟩⟩

/-- Without an open transaction the rows come back; with one, only what it has done is undone. -/
theorem rollbackRows_rows {saved : Table → String → List ρ} (h : ∀ t name, schema.admits t (saved t name) = true)
    (names : List String) (c : Connection schema) (t : Table) (name : String) (hname : name ∈ names) :
    (rollbackRows saved names c).1.view.rows t name =
      if c.pending.isSome then c.disk.rows t name else saved t name := by
  cases hc : c.pending with
  | some db =>
    rw [rollbackRows, hc]
    rfl
  | none =>
    obtain ⟨db', hrestore, hrows⟩ := restoreRows_admitted h
      (names.flatMap (fun name => tables.map (fun t => (name, t)))) c.disk
    rw [rollbackRows, hc]
    dsimp only
    rw [hrestore]
    dsimp only
    rw [Connection.view, Option.getD_none, hrows, if_pos (mem_covered.mpr hname)]
    rfl

end Rows

section Agents

variable {α : Type*} {saved : Entries String (Nat × AgentConfig α)}

theorem restoreAgents_at (h : ∀ e ∈ saved, ∀ e' ∈ saved, e.2.1 = e'.2.1 → e.2.2 = e'.2.2)
    (agentAt : Nat → AgentConfig α) : ∀ e ∈ saved, restoreAgents saved agentAt e.2.1 = e.2.2 := by
  induction saved using List.reverseRecOn with
  | nil => exact fun e he => absurd he List.not_mem_nil
  | append_singleton saved last ih =>
    have hlast : last ∈ saved ++ [last] := List.mem_append_right _ (List.mem_singleton.mpr rfl)
    intro e he
    rw [restoreAgents, List.foldl_append, List.foldl_cons, List.foldl_nil]
    by_cases hsame : e.2.1 = last.2.1
    · rw [hsame, Function.update_self]
      exact h last hlast e he hsame.symm
    · rw [Function.update_of_ne hsame]
      rcases List.mem_append.mp he with hin | hin
      · exact ih (fun x hx y hy => h x (List.mem_append_left _ hx) y (List.mem_append_left _ hy)) e hin
      · exact absurd (congrArg (fun x => x.2.1) (List.mem_singleton.mp hin)) hsame

end Agents

section Restored

variable {α ρ : Type*} {schema : Schema ρ}

def World.agent (w : World α schema) (name : String) : Option (AgentConfig α) := (w.agents.get name).map w.agentAt

/-- What a registry has under a name: the object, and what the object holds. -/
def World.held (w : World α schema) (registry : Entries String Nat) (name : String) : Option (Nat × α) :=
  (registry.get name).map (fun r => (r, w.valueAt r))

variable (names : List String) (paths : List Path) (entry ended : World α schema)

/-- All that a transaction covers is as it was at entry. -/
structure Restored (w : World α schema) : Prop where
  agents : ∀ name, w.agent name = entry.agent name
  capabilities : ∀ name, w.held w.capabilities name = entry.held entry.capabilities name
  graphs : ∀ name ∈ names, w.held w.graphs name = entry.held entry.graphs name
  resolvers : ∀ name ∈ names, w.held w.resolvers name = entry.held entry.resolvers name
  manifests : ∀ m, entry.manifests = some m →
    ∃ m', w.manifests = some m' ∧ ∀ name ∈ names, w.held m' name = entry.held m name
  rows : ∀ t, ∀ name ∈ names, w.conn.view.rows t name = entry.conn.view.rows t name
  files : ∀ p ∈ paths, ∀ q, p <+: q → w.files.get q = entry.files.get q

/-- The object under a name of a registry holds what it held at entry. -/
def Untouched (registry : Entries String Nat) (name : String) : Prop :=
  ∀ r, registry.get name = some r → ended.valueAt r = entry.valueAt r

/-- What the end of the body must meet: objects kept by reference are not changed in place, no
transaction is open unless all that it leaves behind is as it was, and no pipe or device was
among the files, nor stands now where something else did. -/
structure Restorable : Prop where
  capabilities : ∀ name, Untouched entry ended entry.capabilities name
  graphs : ∀ name ∈ names, Untouched entry ended entry.graphs name
  resolvers : ∀ name ∈ names, Untouched entry ended entry.resolvers name
  manifests : ∀ m, entry.manifests = some m → ended.manifests.isSome ∧ ∀ name ∈ names, Untouched entry ended m name
  rows : ended.conn.pending = none ∨
    ∀ t, ∀ name ∈ names, ended.conn.disk.rows t name = entry.conn.view.rows t name
  files : ∀ p ∈ outermost paths, ∀ q, p <+: q →
    match ended.files.get p with
    | some (.special _) => ended.files.get q = entry.files.get q
    | _ => ∀ mode, entry.files.get q ≠ some (.special mode)

variable {names paths entry ended} {proc : Process}

theorem held_eq_iff {w : World α schema} {d d' : Entries String Nat} {name : String} (hget : d'.get name = d.get name)
    (hvalue : w.valueAt = ended.valueAt) :
    w.held d' name = entry.held d name ↔ Untouched entry ended d name := by
  rw [World.held, World.held, hget, hvalue, Untouched]
  cases hd : d.get name with
  | none => exact ⟨fun _ r hr => absurd hr (Option.some_ne_none r).symm, fun _ => rfl⟩
  | some r =>
    rw [Option.map_some, Option.map_some, Option.some.injEq, Prod.mk.injEq]
    constructor
    · intro h r' hr'
      rw [← Option.some.inj hr']
      exact h.2
    · exact fun h => ⟨rfl, h r rfl⟩

theorem keptAs_eq_iff {n : Option Node} : n.map keptAs = n ↔ ∀ mode, n ≠ some (.special mode) := by
  cases n with
  | none => exact ⟨fun _ mode h => absurd h (Option.some_ne_none _).symm, fun _ => rfl⟩
  | some n =>
    cases n with
    | special mode => exact ⟨fun h => (nomatch h), fun h => absurd rfl (h mode)⟩
    | file data mode => exact ⟨fun _ mode h => (nomatch h), fun _ => rfl⟩
    | link text => exact ⟨fun _ mode h => (nomatch h), fun _ => rfl⟩
    | dir mode => exact ⟨fun _ mode h => (nomatch h), fun _ => rfl⟩

theorem restoredAt_eq_iff {fs before : Files} {p q : Path} :
    restoredAt before fs p q = before.get q ↔
      match fs.get p with
      | some (.special _) => fs.get q = before.get q
      | _ => ∀ mode, before.get q ≠ some (.special mode) := by
  unfold restoredAt
  split
  · rfl
  · exact keptAs_eq_iff

theorem exit_uncommitted (raised : Bool) :
    exit proc raised (enter proc names paths entry) ended = rollback proc (enter proc names paths entry) ended := by
  cases raised <;> rfl

theorem rollback_agents (name : String) :
    (rollback proc (enter proc names paths entry) ended).1.agent name = entry.agent name := by
  have hmap : (rollback proc (enter proc names paths entry) ended).1.agents = entry.agents := by
    show (entry.agents.map _).map _ = entry.agents
    rw [List.map_map]
    exact List.map_id _
  have hat : ∀ e ∈ entry.agents,
      (rollback proc (enter proc names paths entry) ended).1.agentAt e.2 = entry.agentAt e.2 := by
    intro e he
    apply restoreAgents_at _ _ (e.1, e.2, entry.agentAt e.2) (List.mem_map.mpr ⟨e, he, rfl⟩)
    intro x hx y hy hsame
    obtain ⟨x, -, rfl⟩ := List.mem_map.mp hx
    obtain ⟨y, -, rfl⟩ := List.mem_map.mp hy
    exact congrArg entry.agentAt hsame
  rw [World.agent, World.agent, hmap]
  cases hget : entry.agents.get name with
  | none => rfl
  | some r => exact congrArg some (hat (name, r) (Entries.mem_of_get hget))

theorem registry_restored (d d' : Entries String Nat) {name : String} (hname : name ∈ names) :
    (d.restore d'.get names.eraseDups).get name = d'.get name := by
  rw [Entries.get_restore, if_pos (List.mem_eraseDups.mpr hname)]

theorem rollback_manifests {m : Entries String Nat} (hm : entry.manifests = some m) :
    (rollback proc (enter proc names paths entry) ended).1.manifests =
      ended.manifests.map (fun n => n.restore m.get names.eraseDups) := by
  simp only [rollback, enter, Bool.false_eq_true, if_false, hm, Option.map_some]
  cases ended.manifests <;> rfl

theorem manifests_iff {m : Entries String Nat} (hm : entry.manifests = some m) :
    (∃ m', (rollback proc (enter proc names paths entry) ended).1.manifests = some m' ∧
      ∀ name ∈ names, (rollback proc (enter proc names paths entry) ended).1.held m' name = entry.held m name) ↔
    ended.manifests.isSome ∧ ∀ name ∈ names, Untouched entry ended m name := by
  rw [rollback_manifests hm]
  constructor
  · rintro ⟨m', hm', hheld⟩
    obtain ⟨n, hn, rfl⟩ := Option.map_eq_some_iff.mp hm'
    refine ⟨by rw [hn]; rfl, fun name hname => ?_⟩
    exact (held_eq_iff (registry_restored n m hname) rfl).mp (hheld name hname)
  · rintro ⟨hsome, huntouched⟩
    obtain ⟨n, hn⟩ := Option.isSome_iff_exists.mp hsome
    refine ⟨n.restore m.get names.eraseDups, by rw [hn]; rfl, fun name hname => ?_⟩
    exact (held_eq_iff (registry_restored n m hname) rfl).mpr (huntouched name hname)

theorem rows_iff :
    (∀ t, ∀ name ∈ names, (rollback proc (enter proc names paths entry) ended).1.conn.view.rows t name =
      entry.conn.view.rows t name) ↔
    (ended.conn.pending = none ∨ ∀ t, ∀ name ∈ names, ended.conn.disk.rows t name = entry.conn.view.rows t name) := by
  have hrows : ∀ t, ∀ name ∈ names, (rollback proc (enter proc names paths entry) ended).1.conn.view.rows t name =
      if ended.conn.pending.isSome then ended.conn.disk.rows t name else entry.conn.view.rows t name :=
    fun t name hname => rollbackRows_rows entry.conn.view.admitted _ _ t name (List.mem_eraseDups.mpr hname)
  constructor
  · intro h
    cases hpending : ended.conn.pending with
    | none => exact .inl rfl
    | some db =>
      refine .inr (fun t name hname => ?_)
      have hrow := h t name hname
      rw [hrows t name hname, hpending] at hrow
      exact hrow
  · intro h t name hname
    rw [hrows t name hname]
    split
    · next hpending =>
      rcases h with hnone | hsame
      · rw [hnone] at hpending
        exact absurd hpending Bool.false_ne_true
      · exact hsame t name hname
    · rfl

theorem files_iff (hready : ∀ p ∈ outermost paths, Ready proc entry.files ended.files p) :
    (∀ p ∈ paths, ∀ q, p <+: q →
      (rollback proc (enter proc names paths entry) ended).1.files.get q = entry.files.get q) ↔
    ∀ p ∈ outermost paths, ∀ q, p <+: q →
      match ended.files.get p with
      | some (.special _) => ended.files.get q = entry.files.get q
      | _ => ∀ mode, entry.files.get q ≠ some (.special mode) := by
  have hfiles : ∀ p ∈ outermost paths, ∀ q, p <+: q →
      (rollback proc (enter proc names paths entry) ended).1.files.get q = restoredAt entry.files ended.files p q :=
    fun p hp q hq => (restoreEach_restored _ hready (outermost_apart paths)).1 p hp q hq
  constructor
  · intro h p hp q hq
    have hfile := h p (mem_outermost.mp hp).1 q hq
    rw [hfiles p hp q hq] at hfile
    exact restoredAt_eq_iff.mp hfile
  · intro h p hp q hq
    -- `p` lies in a captured path, which is restored whole
    obtain ⟨r, hr, hrp⟩ := outermost_covers hp
    rw [hfiles r hr q (hrp.trans hq)]
    exact restoredAt_eq_iff.mpr (h r hr q (hrp.trans hq))

/-- A body that ends without a commit leaves nothing behind exactly where its end meets `Restorable`,
as long as the process can reach the covered files. -/
theorem exit_restored_iff (proc : Process) (names : List String) (paths : List Path) (entry ended : World α schema)
    (raised : Bool) (hready : ∀ p ∈ outermost paths, Ready proc entry.files ended.files p) :
    Restored names paths entry (exit proc raised (enter proc names paths entry) ended).1 ↔
      Restorable names paths entry ended := by
  rw [exit_uncommitted]
  have hgraphs : ∀ name ∈ names, (rollback proc (enter proc names paths entry) ended).1.held
      (rollback proc (enter proc names paths entry) ended).1.graphs name = entry.held entry.graphs name ↔
        Untouched entry ended entry.graphs name :=
    fun name hname => held_eq_iff (registry_restored _ _ hname) rfl
  have hresolvers : ∀ name ∈ names, (rollback proc (enter proc names paths entry) ended).1.held
      (rollback proc (enter proc names paths entry) ended).1.resolvers name = entry.held entry.resolvers name ↔
        Untouched entry ended entry.resolvers name :=
    fun name hname => held_eq_iff (registry_restored _ _ hname) rfl
  constructor
  · intro h
    exact {
      capabilities := fun name => (held_eq_iff rfl rfl).mp (h.capabilities name)
      graphs := fun name hname => (hgraphs name hname).mp (h.graphs name hname)
      resolvers := fun name hname => (hresolvers name hname).mp (h.resolvers name hname)
      manifests := fun m hm => (manifests_iff hm).mp (h.manifests m hm)
      rows := rows_iff.mp h.rows
      files := (files_iff hready).mp h.files }
  · intro h
    exact {
      agents := rollback_agents
      capabilities := fun name => (held_eq_iff rfl rfl).mpr (h.capabilities name)
      graphs := fun name hname => (hgraphs name hname).mpr (h.graphs name hname)
      resolvers := fun name hname => (hresolvers name hname).mpr (h.resolvers name hname)
      manifests := fun m hm => (manifests_iff hm).mpr (h.manifests m hm)
      rows := rows_iff.mpr h.rows
      files := (files_iff hready).mpr h.files }

end Restored

section Runs

def anyRows : Schema Nat := ⟨fun _ _ => true, fun _ _ _ _ _ => rfl⟩

def rowsOf (l : List Nat) : Db anyRows := ⟨fun _ name => if name = "demo" then l else [], fun _ _ => rfl⟩

/-- A world without registrations, with a connection and files. -/
def bare (conn : Connection anyRows) (files : Files) : World Nat anyRows where
  agents := []
  agentAt := fun _ => ⟨0, 0, 0, 0, 0, 0⟩
  capabilities := []
  graphs := []
  resolvers := []
  manifests := some []
  valueAt := fun _ => 0
  conn := conn
  files := files

/-- A config file that the body has deleted comes back, and a row that it has committed goes. -/
theorem exit_restores_file_and_rows :
    Restored ["demo"] [["demo.yaml"]] (bare ⟨rowsOf [], none⟩ [(["demo.yaml"], .file [] 0o644)])
      (exit superuser true (enter superuser ["demo"] [["demo.yaml"]]
        (bare ⟨rowsOf [], none⟩ [(["demo.yaml"], .file [] 0o644)])) (bare ⟨rowsOf [1], none⟩ [])).1 := by
  have hfile : ∀ q n, Entries.get [(["demo.yaml"], Node.file [] 0o644)] q = some n → q = ["demo.yaml"] ∧
      n = .file [] 0o644 := by
    intro q n h
    rw [Entries.get_cons] at h
    split at h
    · next he => exact ⟨he.symm, (Option.some.inj h).symm⟩
    · cases h
  apply (exit_restored_iff superuser ["demo"] [["demo.yaml"]] _ _ true ?_).mpr
  · refine ⟨fun _ _ h => (by cases h), fun _ _ _ h => (by cases h), fun _ _ _ h => (by cases h), ?_, .inl rfl, ?_⟩
    · intro m hm
      cases hm
      exact ⟨rfl, fun _ _ _ h => by cases h⟩
    · intro p _ q _ mode h
      exact absurd (hfile q _ h).2 (by simp)
  · intro p hp
    have hpath : p = ["demo.yaml"] := List.mem_singleton.mp (mem_outermost.mp hp).1
    subst hpath
    refine ⟨?_, ⟨?_, ?_, ?_⟩, ?_⟩
    · intro q _ hne hsome
      obtain ⟨n, hn⟩ := Option.isSome_iff_exists.mp hsome
      exact absurd (hfile q n hn).1 hne
    · exact fun q _ _ hsome => absurd hsome Bool.false_ne_true
    · intro q mode _ h
      cases h
    · exact fun hsome => absurd hsome Bool.false_ne_true
    · exact fun q _ => .inl rfl

/-- A body that commits a row and stops inside a second transaction leaves the row behind. -/
theorem exit_keeps_committed_rows :
    ¬ Restored ["demo"] [] (bare ⟨rowsOf [], none⟩ [])
      (exit superuser true (enter superuser ["demo"] [] (bare ⟨rowsOf [], none⟩ []))
        (bare ⟨rowsOf [1], some (rowsOf [1, 2])⟩ [])).1 := by
  intro h
  have hrows : [1] = [] := h.rows .skillflowGraphs "demo" (List.mem_singleton.mpr rfl)
  cases hrows

end Runs

end AItelier.Registration
