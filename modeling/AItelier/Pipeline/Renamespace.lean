import Mathlib.Data.List.Nodup
import AItelier.Lib.Entries
import AItelier.Lib.Outcome

namespace AItelier.Pipeline

open AItelier.Lib

abbrev Text := List Char

def roleSep : Text := "__".toList

def genPrefix : Text := "gen_".toList

/-- `s[len(p):] if s.startswith(p) else s`. -/
def stripped (p s : Text) : Text := if p <+: s then s.drop p.length else s

/-- What `rebase` leaves of a role before it puts the new namespace before it. -/
def bare (old new role : Text) : Text := stripped (new ++ roleSep) (stripped (old ++ roleSep) role)

def rebase (old new role : Text) : Text := new ++ roleSep ++ bare old new role

/-- The part of a bundle that carries roles: their configurations under their keys, and what
each step names as its `agent_config`, where that is a text. -/
@[ext] structure Bundle (ν : Type) where
  configName : Text
  roles : Entries Text ν
  steps : List (Option Text)
  distinct : (roles.map Prod.fst).Nodup

variable {ν : Type} {old new role r s p : Text} {d : Entries Text ν} {rows : List (Text × ν)}

/-- `{key: value for key, value in rows}`. -/
def dictOf (rows : List (Text × ν)) : Entries Text ν := rows.foldl (fun d e => Entries.set d e.1 e.2) []

theorem foldl_set_nodup (h : (d.map Prod.fst).Nodup) (rows : List (Text × ν)) :
    ((rows.foldl (fun d e => Entries.set d e.1 e.2) d).map Prod.fst).Nodup := by
  induction rows generalizing d with
  | nil => exact h
  | cons e rows ih =>
    apply ih
    show ((Entries.set d e.1 e.2).map Prod.fst).Nodup
    by_cases hk : e.1 ∈ d.map Prod.fst
    · rwa [Entries.keys_set_old hk]
    · rw [Entries.set_new hk, List.map_append, List.nodup_append]
      refine ⟨h, List.nodup_singleton _, fun a ha b hb => ?_⟩
      rintro rfl
      exact hk (List.mem_singleton.mp hb ▸ ha)

/-- `_renamespace`. -/
def renamespace (old new : Text) (b : Bundle ν) : Bundle ν where
  configName := new
  roles := dictOf (b.roles.map (fun e => (rebase old new e.1, e.2)))
  steps := b.steps.map (Option.map (rebase old new))
  distinct := foldl_set_nodup (d := []) List.nodup_nil _

/-- The name a bundle is imported under. -/
def configNameFor (slug : Text → Text) (b : Bundle ν) : Option Text → Text
  | some name => if name = [] then b.configName else genPrefix ++ slug name
  | none => b.configName

def sourceName (b : Bundle ν) (configName : Text) : Text := if b.configName = [] then configName else b.configName

/-- `import_pipeline` up to what it registers; `accepted` is every check of the graph, of the
tools and of the destination. -/
def importPipeline (slug : Text → Text) (accepted : Bundle ν → Bool) (b : Bundle ν) (name : Option Text) :
    Except String (Bundle ν) := do
  let configName := configNameFor slug b name
  ensure (configName ≠ []) "bundle has no config_name and no name was given"
  ensure (genPrefix <+: configName) ("this bundle calls itself '" ++ String.ofList configName ++
    "', which is not a generated pipeline name. Importing it would replace a built-in config of that name. " ++
    "Re-run with name=<something> to install it as gen_<slug>.")
  let imported := renamespace (sourceName b configName) configName b
  ensure (accepted imported = true) "bundle's graph is not a valid pipeline"
  return imported

def Bundle.keys (b : Bundle ν) : List Text := b.roles.map Prod.fst

def Bundle.references (b : Bundle ν) : List Text := b.steps.filterMap id

/-- Roles stay apart, a second renaming changes nothing, and every step finds the role
configuration it found before. -/
structure Kept (old new : Text) (b out : Bundle ν) : Prop where
  injective : ∀ r ∈ b.keys, ∀ s ∈ b.keys, rebase old new r = rebase old new s → r = s
  again : renamespace new new out = out
  resolved : ∀ (i : Nat) (role : Text), b.steps[i]? = some (some role) → ∃ moved, out.steps[i]? = some (some moved) ∧
    Entries.get out.roles moved = Entries.get b.roles role

/-- No two roles have one name without its namespaces, no name carries the new namespace
twice, and no step names a role outside the bundle that way. -/
structure Separable (old new : Text) (b : Bundle ν) : Prop where
  apart : ∀ r ∈ b.keys, ∀ s ∈ b.keys, bare old new r = bare old new s → r = s
  once : ∀ role ∈ b.keys ++ b.references, ¬ new ++ roleSep <+: bare old new role
  inside : ∀ role ∈ b.references, role ∉ b.keys → ∀ r ∈ b.keys, bare old new r ≠ bare old new role

variable {b out : Bundle ν}

theorem stripped_append (p s : Text) : stripped p (p ++ s) = s := by
  rw [stripped, if_pos (List.prefix_append p s), List.drop_left]

theorem stripped_fixed (hp : p ≠ []) : stripped p s = s ↔ ¬ p <+: s := by
  rw [stripped]
  constructor
  · intro h hstart
    rw [if_pos hstart] at h
    have hlen := congrArg List.length h
    have hpos := List.length_pos_iff.mpr hp
    have hle := hstart.length_le
    rw [List.length_drop] at hlen
    omega
  · exact fun h => if_neg h

theorem namespace_ne_nil (new : Text) : new ++ roleSep ≠ [] := by
  intro h
  exact absurd (List.append_eq_nil_iff.mp h).2 (by decide)

theorem rebase_inj : rebase old new r = rebase old new s ↔ bare old new r = bare old new s := by
  rw [rebase, rebase, List.append_cancel_left_eq]

/-- A renamed role is renamed again to itself where it carries the namespace once. -/
theorem rebase_again (old new role : Text) : rebase new new (rebase old new role) = rebase old new role ↔
    ¬ new ++ roleSep <+: bare old new role := by
  have hbare : bare new new (rebase old new role) = stripped (new ++ roleSep) (bare old new role) := by
    rw [bare, rebase, stripped_append]
  rw [rebase, hbare, rebase, List.append_cancel_left_eq]
  exact stripped_fixed (namespace_ne_nil new)

theorem set_length (d : Entries Text ν) (k : Text) (v : ν) :
    (Entries.set d k v).length = if k ∈ d.map Prod.fst then d.length else d.length + 1 := by
  split
  · next hk =>
    have hkeys := congrArg List.length (Entries.keys_set_old hk v)
    rwa [List.length_map, List.length_map] at hkeys
  · next hk => rw [Entries.set_new hk, List.length_append, List.length_singleton]

theorem foldl_set_length (d : Entries Text ν) (rows : List (Text × ν)) :
    (rows.foldl (fun d e => Entries.set d e.1 e.2) d).length ≤ d.length + rows.length := by
  induction rows generalizing d with
  | nil => exact Nat.le_refl _
  | cons e rows ih =>
    have hstep := ih (Entries.set d e.1 e.2)
    rw [set_length] at hstep
    rw [List.foldl_cons, List.length_cons]
    split at hstep <;> omega

/-- A dictionary as long as its rows is its rows. -/
theorem foldl_set_full (h : (rows.foldl (fun d e => Entries.set d e.1 e.2) d).length = d.length + rows.length) :
    rows.foldl (fun d e => Entries.set d e.1 e.2) d = d ++ rows := by
  induction rows generalizing d with
  | nil => exact (List.append_nil d).symm
  | cons e rows ih =>
    rw [List.foldl_cons, List.length_cons] at h
    have hle := foldl_set_length (Entries.set d e.1 e.2) rows
    rw [set_length] at hle
    by_cases hk : e.1 ∈ d.map Prod.fst
    · rw [if_pos hk] at hle
      omega
    · have hset : Entries.set d e.1 e.2 = d ++ [e] := Entries.set_new hk e.2
      rw [hset] at h
      rw [List.foldl_cons, hset, ih]
      · rw [List.append_assoc, List.singleton_append]
      · rw [h, List.length_append, List.length_singleton]
        omega

theorem foldl_set_distinct (h : ((d ++ rows).map Prod.fst).Nodup) :
    rows.foldl (fun d e => Entries.set d e.1 e.2) d = d ++ rows := by
  induction rows generalizing d with
  | nil => exact (List.append_nil d).symm
  | cons e rows ih =>
    have hk : e.1 ∉ d.map Prod.fst := by
      intro hin
      rw [List.map_append, List.nodup_append] at h
      exact h.2.2 _ hin _ List.mem_cons_self rfl
    rw [List.foldl_cons, Entries.set_new hk, ih]
    · rw [List.append_assoc, List.singleton_append]
    · rwa [List.append_assoc, List.singleton_append]

theorem dictOf_distinct (h : (rows.map Prod.fst).Nodup) : dictOf rows = rows := foldl_set_distinct h

theorem fixed_of_dictOf {f : Text → Text} (h : dictOf (d.map (fun e => (f e.1, e.2))) = d) : ∀ e ∈ d, f e.1 = e.1 := by
  have hfull : dictOf (d.map (fun e => (f e.1, e.2))) = d.map (fun e => (f e.1, e.2)) := by
    apply foldl_set_full
    have hlen := congrArg List.length h
    rw [dictOf] at hlen
    rw [hlen, List.length_map, List.length_nil, Nat.zero_add]
  rw [hfull] at h
  intro e he
  obtain ⟨i, hi, rfl⟩ := List.getElem_of_mem he
  have hget := congrArg (fun l => (l[i]?).map Prod.fst) h
  simp only [List.getElem?_map, List.getElem?_eq_getElem hi, Option.map_some, Option.some.injEq] at hget
  exact hget

theorem renamed_roles (h : (b.keys.map (rebase old new)).Nodup) :
    (renamespace old new b).roles = b.roles.map (fun e => (rebase old new e.1, e.2)) := by
  apply dictOf_distinct
  rw [Bundle.keys, List.map_map] at h
  rw [List.map_map]
  exact h

theorem renamed_nodup (b : Bundle ν)
    (hinj : ∀ r ∈ b.keys, ∀ s ∈ b.keys, rebase old new r = rebase old new s → r = s) :
    (b.keys.map (rebase old new)).Nodup :=
  List.Nodup.map_on (fun r hr s hs heq => hinj r hr s hs heq) b.distinct

theorem get_renamed
    (hinj : ∀ r ∈ b.keys, ∀ s ∈ b.keys, rebase old new r = rebase old new s → r = s) {e : Text × ν}
    (he : e ∈ b.roles) : Entries.get (renamespace old new b).roles (rebase old new e.1) = some e.2 := by
  have hnodup := renamed_nodup b hinj
  rw [renamed_roles hnodup]
  apply Entries.get_of_mem
  · rw [Bundle.keys, List.map_map] at hnodup
    rw [List.map_map]
    exact hnodup
  · exact List.mem_map.mpr ⟨e, he, rfl⟩

/-- Renaming twice is renaming once where no name carries the namespace twice. -/
theorem again_iff (b : Bundle ν)
    (hinj : ∀ r ∈ b.keys, ∀ s ∈ b.keys, rebase old new r = rebase old new s → r = s) :
    renamespace new new (renamespace old new b) = renamespace old new b ↔
      ∀ role ∈ b.keys ++ b.references, rebase new new (rebase old new role) = rebase old new role := by
  have hnodup := renamed_nodup b hinj
  constructor
  · intro h role hrole
    rcases List.mem_append.mp hrole with hrole | hrole
    · have hroles := congrArg Bundle.roles h
      obtain ⟨e, he, rfl⟩ := List.mem_map.mp hrole
      have hin : (rebase old new e.1, e.2) ∈ (renamespace old new b).roles := by
        rw [renamed_roles hnodup]
        exact List.mem_map.mpr ⟨e, he, rfl⟩
      exact fixed_of_dictOf hroles _ hin
    · have hsteps := congrArg Bundle.steps h
      obtain ⟨o, ho, hsome⟩ := List.mem_filterMap.mp hrole
      obtain rfl : o = some role := hsome
      obtain ⟨i, hi, hget⟩ := List.getElem_of_mem ho
      have hstep := congrArg (fun l => l[i]?) hsteps
      simp only [renamespace, List.map_map, List.getElem?_map, List.getElem?_eq_getElem hi, hget, Option.map_some,
        Function.comp_apply, Option.some.injEq] at hstep
      exact hstep
  · intro h
    have hfixed : ∀ e ∈ (renamespace old new b).roles, rebase new new e.1 = e.1 := by
      intro e he
      rw [renamed_roles hnodup] at he
      obtain ⟨e', he', rfl⟩ := List.mem_map.mp he
      exact h e'.1 (List.mem_append_left _ (List.mem_map_of_mem he'))
    have hroles : dictOf ((renamespace old new b).roles.map (fun e => (rebase new new e.1, e.2))) =
        (renamespace old new b).roles := by
      have hsame : (renamespace old new b).roles.map (fun e => (rebase new new e.1, e.2)) =
          (renamespace old new b).roles := by
        conv_rhs => rw [← List.map_id (renamespace old new b).roles]
        refine List.map_congr_left (fun e he => ?_)
        rw [hfixed e he]
        rfl
      rw [hsame]
      apply dictOf_distinct
      rw [renamed_roles hnodup, List.map_map]
      rw [Bundle.keys, List.map_map] at hnodup
      exact hnodup
    have hsteps : (renamespace old new b).steps.map (Option.map (rebase new new)) = (renamespace old new b).steps := by
      simp only [renamespace, List.map_map]
      refine List.map_congr_left (fun o ho => ?_)
      cases o with
      | none => rfl
      | some role =>
        have hrole : role ∈ b.references := List.mem_filterMap.mpr ⟨some role, ho, rfl⟩
        exact congrArg some (h role (List.mem_append_right _ hrole))
    exact Bundle.ext rfl hroles hsteps

/-- A renaming keeps every reference exactly where the names of a bundle stay apart without
their namespaces. -/
theorem renamespace_keeps (old new : Text) (b : Bundle ν) :
    Kept old new b (renamespace old new b) ↔ Separable old new b := by
  constructor
  · intro h
    refine ⟨fun r hr s hs heq => h.injective r hr s hs (rebase_inj.mpr heq), fun role hrole => ?_, ?_⟩
    · exact (rebase_again old new role).mp ((again_iff b h.injective).mp h.again role hrole)
    · intro role hrole hout r hr heq
      obtain ⟨o, ho, hsome⟩ := List.mem_filterMap.mp hrole
      obtain rfl : o = some role := hsome
      obtain ⟨i, hi, hget⟩ := List.getElem_of_mem ho
      obtain ⟨moved, hmoved, hresolved⟩ := h.resolved i role (List.getElem?_eq_some_iff.mpr ⟨hi, hget⟩)
      simp only [renamespace, List.getElem?_map, List.getElem?_eq_getElem hi, hget, Option.map_some,
        Option.some.injEq] at hmoved
      obtain ⟨e, he, rfl⟩ := List.mem_map.mp hr
      have hfound := get_renamed h.injective he
      rw [rebase_inj.mpr heq, hmoved, hresolved, Entries.get_eq_none hout] at hfound
      cases hfound
  · intro h
    have hinj : ∀ r ∈ b.keys, ∀ s ∈ b.keys, rebase old new r = rebase old new s → r = s :=
      fun r hr s hs heq => h.apart r hr s hs (rebase_inj.mp heq)
    refine ⟨hinj, (again_iff b hinj).mpr (fun role hrole => (rebase_again old new role).mpr (h.once role hrole)), ?_⟩
    intro i role hstep
    refine ⟨rebase old new role, by simp only [renamespace, List.getElem?_map, hstep, Option.map_some], ?_⟩
    have hrole : role ∈ b.references := List.mem_filterMap.mpr ⟨some role, List.mem_of_getElem? hstep, rfl⟩
    by_cases hin : role ∈ b.keys
    · obtain ⟨e, he, rfl⟩ := List.mem_map.mp hin
      rw [get_renamed hinj he]
      exact (Entries.get_of_mem b.distinct he).symm
    · rw [Entries.get_eq_none hin]
      apply Entries.get_eq_none
      rw [renamed_roles (renamed_nodup b hinj), List.map_map, List.mem_map]
      rintro ⟨e, he, heq⟩
      exact h.inside role hrole hin e.1 (List.mem_map_of_mem he) (rebase_inj.mp heq)

theorem importPipeline_ok {slug : Text → Text} {accepted : Bundle ν → Bool} {name : Option Text}
    (h : importPipeline slug accepted b name = .ok out) :
    out = renamespace (sourceName b (configNameFor slug b name)) (configNameFor slug b name) b := by
  unfold importPipeline at h
  simp only [bind_ok, pure_ok] at h
  obtain ⟨-, -, -, -, -, -, rfl⟩ := h
  rfl

/-- The same for a bundle that is imported. -/
theorem import_keeps_references (slug : Text → Text) (accepted : Bundle ν → Bool) (b : Bundle ν) (name : Option Text)
    (out : Bundle ν) (h : importPipeline slug accepted b name = .ok out) :
    Kept (sourceName b out.configName) out.configName b out ↔
      Separable (sourceName b out.configName) out.configName b := by
  obtain rfl := importPipeline_ok h
  exact renamespace_keeps _ _ b

/-- A bundle with roles under their bare names and in the namespace, and a step of a role
that it does not carry. -/
def draft : Bundle Nat where
  configName := "gen_x".toList
  roles := [("plan".toList, 1), ("gen_x__write".toList, 2), ("edit".toList, 3)]
  steps := [some "plan".toList, some "gen_x__write".toList, none, some "edit".toList, some "plan".toList,
    some "ask".toList]
  distinct := by decide

/-- The bundle as it is imported under the name `y`. -/
def importedDraft : Bundle Nat where
  configName := "gen_y".toList
  roles := [("gen_y__plan".toList, 1), ("gen_y__write".toList, 2), ("gen_y__edit".toList, 3)]
  steps := [some "gen_y__plan".toList, some "gen_y__write".toList, none, some "gen_y__edit".toList,
    some "gen_y__plan".toList, some "gen_y__ask".toList]
  distinct := by decide

theorem import_keeps_references_own : importPipeline id (fun _ => true) draft (some "y".toList) = .ok importedDraft ∧
    Kept draft.configName importedDraft.configName draft importedDraft := by
  have h : importPipeline id (fun _ => true) draft (some "y".toList) = .ok importedDraft := rfl
  have hkept := import_keeps_references id (fun _ => true) draft (some "y".toList) importedDraft h
  exact ⟨h, hkept.mpr ⟨by decide, by decide, by decide⟩⟩

/-- A bundle with a role under its bare name and another under the same name in the namespace. -/
def twoRoles : Bundle Nat where
  configName := "gen_x".toList
  roles := [("a".toList, 1), ("gen_x__a".toList, 2)]
  steps := [some "a".toList, some "gen_x__a".toList]
  distinct := by decide

/-- One of the two is lost. -/
theorem role_lost : ¬ ∀ (slug : Text → Text) (accepted : Bundle Nat → Bool) (b : Bundle Nat) (name : Option Text)
    (out : Bundle Nat), importPipeline slug accepted b name = .ok out →
      Kept (sourceName b out.configName) out.configName b out := by
  intro h
  have hkept := h id (fun _ => true) twoRoles none _ rfl
  have heq := hkept.injective "a".toList (by decide) "gen_x__a".toList (by decide) (by decide)
  exact absurd heq (by decide)

end AItelier.Pipeline
