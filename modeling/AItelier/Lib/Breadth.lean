import Mathlib.Data.List.Chain
import Mathlib.Data.List.Induction
import Mathlib.Data.List.Nodup
import Mathlib.Logic.Relation
import AItelier.Lib.Entries

namespace AItelier.Lib

variable {κ : Type*} [DecidableEq κ]

/-- The nodes met, each with the one it was met from, and those still to be visited. -/
structure Wave (κ : Type*) where
  parents : Entries κ (Option κ)
  queue : List κ
  clipped : Bool

namespace Wave

def start (root : κ) : Wave κ := ⟨[(root, none)], [root], false⟩

def meet (most : Nat) (target : κ) (w : Wave κ) (child : κ) : Wave κ :=
  if child ∈ w.parents.map Prod.fst then w
  else if most ≤ w.parents.length then { w with clipped := true }
  else { w with parents := w.parents ++ [(child, some target)], queue := w.queue ++ [child] }

def sweep (next : κ → List κ) (most : Nat) : Nat → Wave κ → Wave κ
  | 0, w => w
  | n + 1, w =>
    match w.queue with
    | [] => w
    | target :: queue => sweep next most n ((next target).foldl (meet most target) { w with queue := queue })

/-- From a node to where it came from, and on to the root. -/
def back (parents : Entries κ (Option κ)) : Nat → κ → List κ
  | 0, _ => []
  | n + 1, k => k :: (match parents.get k with
    | some (some p) => back parents n p
    | _ => [])

end Wave

/-- A way along the edges from the root to a node. -/
inductive Trail (next : κ → List κ) (root : κ) : List κ → κ → Prop
  | root : Trail next root [root] root
  | step {path : List κ} {a b : κ} (before : Trail next root path a) (edge : b ∈ next a) :
      Trail next root (path ++ [b]) b

section Trail
variable {next : κ → List κ} {root k : κ} {path : List κ}

omit [DecidableEq κ] in
theorem Trail.getLast (h : Trail next root path k) : path.getLast? = some k := by
  cases h with
  | root => rfl
  | step => exact List.getLast?_concat

omit [DecidableEq κ] in
theorem trail_iff : Trail next root path k ↔
    path.head? = some root ∧ path.getLast? = some k ∧ path.IsChain (fun a b => b ∈ next a) := by
  constructor
  · intro h
    refine ⟨?_, h.getLast, ?_⟩
    · induction h with
      | root => rfl
      | step _ _ ih => rw [List.head?_append, ih]; rfl
    · induction h with
      | root => exact .singleton root
      | step before edge ih =>
        refine ih.append (.singleton _) (fun a ha b hb => ?_)
        rw [before.getLast] at ha
        cases ha
        cases hb
        exact edge
  · rintro ⟨hhead, hlast, hchain⟩
    induction path using List.reverseRecOn generalizing k with
    | nil => cases hhead
    | append_singleton path b ih =>
      rw [List.getLast?_concat] at hlast
      cases hlast
      cases hpath : path.getLast? with
      | none =>
        rw [List.getLast?_eq_none_iff.mp hpath] at hhead
        cases hhead
        rw [List.getLast?_eq_none_iff.mp hpath]
        exact .root
      | some a =>
        obtain ⟨hbefore, -, hedge⟩ := List.isChain_append.mp hchain
        have hfirst : path.head? = some root := by
          cases path with
          | nil => cases hpath
          | cons x path => exact hhead
        exact (ih hfirst hpath hbefore).step (hedge a hpath b rfl)

omit [DecidableEq κ] in
theorem exists_trail_iff :
    (∃ path, Trail next root path k) ↔ Relation.ReflTransGen (fun a b => b ∈ next a) root k := by
  constructor
  · rintro ⟨path, h⟩
    induction h with
    | root => exact .refl
    | step _ edge ih => exact ih.tail edge
  · intro h
    induction h with
    | refl => exact ⟨_, .root⟩
    | tail _ edge ih =>
      obtain ⟨path, hpath⟩ := ih
      exact ⟨_, hpath.step edge⟩

end Trail

/-- The nodes met, in order, each with its distance from the root. -/
inductive Discovered (next : κ → List κ) (root : κ) : Entries κ (Option κ) → List (κ × Nat) → Prop
  | root : Discovered next root [(root, none)] [(root, 0)]
  | step {parents : Entries κ (Option κ)} {all : List (κ × Nat)} {p : κ × Nat} {c : κ}
      (before : Discovered next root parents all) (parent : p ∈ all) (edge : c ∈ next p.1)
      (fresh : c ∉ all.map Prod.fst) :
      Discovered next root (parents ++ [(c, some p.1)]) (all ++ [(c, p.2 + 1)])

section Discovered
variable {next : κ → List κ} {root k : κ} {parents : Entries κ (Option κ)} {all : List (κ × Nat)} {n d : Nat}

omit [DecidableEq κ] in
theorem Discovered.keys (h : Discovered next root parents all) : parents.map Prod.fst = all.map Prod.fst := by
  induction h with
  | root => rfl
  | step _ _ _ _ ih =>
    rw [List.map_append, List.map_append, ih]
    rfl

omit [DecidableEq κ] in
theorem Discovered.length (h : Discovered next root parents all) : parents.length = all.length := by
  have := congrArg List.length h.keys
  rwa [List.length_map, List.length_map] at this

omit [DecidableEq κ] in
theorem Discovered.nodup (h : Discovered next root parents all) : (all.map Prod.fst).Nodup := by
  induction h with
  | root => exact List.nodup_singleton root
  | @step _ _ _ c _ _ _ fresh ih =>
    rw [List.map_append, List.map_singleton, List.nodup_append]
    refine ⟨ih, List.nodup_singleton _, ?_⟩
    rintro a ha b hb rfl
    have hc : a = c := List.mem_singleton.mp hb
    exact fresh (hc ▸ ha)

omit [DecidableEq κ] in
theorem Discovered.root_mem (h : Discovered next root parents all) : (root, 0) ∈ all := by
  induction h with
  | root => exact List.mem_singleton_self _
  | step _ _ _ _ ih => exact List.mem_append_left _ ih

omit [DecidableEq κ] in
theorem Discovered.parent_mem (h : Discovered next root parents all) {p : κ} (hk : (k, some p) ∈ parents) :
    p ∈ all.map Prod.fst := by
  induction h with
  | root => cases List.mem_singleton.mp hk
  | step _ parent _ _ ih =>
    rw [List.map_append]
    rcases List.mem_append.mp hk with hk | hk
    · exact List.mem_append_left _ (ih hk)
    · cases List.mem_singleton.mp hk
      exact List.mem_append_left _ (List.mem_map_of_mem parent)

theorem get_older {e : κ × Option κ} (hk : k ∈ parents.map Prod.fst) :
    Entries.get (parents ++ [e]) k = Entries.get parents k := by
  obtain ⟨v, hv⟩ := Option.isSome_iff_exists.mp (Entries.get_isSome.mpr hk)
  rw [Entries.get_append, hv]
  rfl

/-- A node that is met later changes no way back. -/
theorem Discovered.back_append (h : Discovered next root parents all) {e : κ × Option κ} (hk : k ∈ all.map Prod.fst) :
    Wave.back (parents ++ [e]) n k = Wave.back parents n k := by
  induction n generalizing k with
  | zero => rfl
  | succ n ih =>
    rw [Wave.back, Wave.back, get_older (h.keys ▸ hk)]
    cases hparent : Entries.get parents k with
    | none => rfl
    | some parent =>
      cases parent with
      | none => rfl
      | some p =>
        simp only
        rw [ih (h.parent_mem (Entries.mem_of_get hparent))]

/-- The way back from a node that was met is a trail as long as its distance. -/
theorem Discovered.trail (h : Discovered next root parents all) (hk : (k, d) ∈ all) (hn : all.length ≤ n) :
    Trail next root (Wave.back parents n k).reverse k ∧ (Wave.back parents n k).length = d + 1 := by
  induction h generalizing n k d with
  | root =>
    cases List.mem_singleton.mp hk
    obtain ⟨n, rfl⟩ : ∃ m, n = m + 1 := ⟨n - 1, (Nat.sub_add_cancel hn).symm⟩
    have hback : Wave.back [(root, none)] (n + 1) root = [root] := by
      rw [Wave.back, Entries.get_cons, if_pos rfl]
    rw [hback]
    exact ⟨.root, rfl⟩
  | @step parents all p c before parent edge fresh ih =>
    rw [List.length_append, List.length_singleton] at hn
    rcases List.mem_append.mp hk with hk | hk
    · rw [before.back_append (List.mem_map_of_mem hk)]
      exact ih hk (by omega)
    · cases List.mem_singleton.mp hk
      obtain ⟨n, rfl⟩ : ∃ m, n = m + 1 := ⟨n - 1, by omega⟩
      have hlast : Entries.get (parents ++ [(c, some p.1)]) c = some (some p.1) := by
        rw [Entries.get_append, Entries.get_eq_none (before.keys ▸ fresh), Entries.get_cons, if_pos rfl]
        rfl
      have hback : Wave.back (parents ++ [(c, some p.1)]) (n + 1) c = c :: Wave.back parents n p.1 := by
        rw [Wave.back, hlast, ← before.back_append (List.mem_map_of_mem parent)]
      obtain ⟨htrail, hlength⟩ := ih parent (by omega : all.length ≤ n)
      rw [hback, List.reverse_cons, List.length_cons, hlength]
      exact ⟨htrail.step edge, rfl⟩

end Discovered

/-- The end `b` of an edge from `a` was met one further on at most, or there was no room for it:
then nothing is further away than that. -/
def Met (most : Nat) (clipped : Bool) (all : List (κ × Nat)) (a : κ × Nat) (b : κ) : Prop :=
  (∃ n ≤ a.2 + 1, (b, n) ∈ all) ∨
    (b ∉ all.map Prod.fst ∧ most ≤ all.length ∧ clipped = true ∧ ∀ x ∈ all, x.2 ≤ a.2 + 1)

/-- What holds between two rounds, and between two edges of a round: `all` was met, `waiting` is
queued, nothing is further than `bound`, and the `handled` edges were followed. -/
structure Swept (next : κ → List κ) (root : κ) (most : Nat) (w : Wave κ) (all waiting : List (κ × Nat)) (bound : Nat)
    (handled : κ × Nat → κ → Prop) : Prop where
  found : Discovered next root w.parents all
  queue : w.queue = waiting.map Prod.fst
  few : all.length ≤ most
  order : all.Pairwise (fun a b => a.2 ≤ b.2)
  window : ∀ a ∈ all, a.2 ≤ bound
  met : ∀ a b, handled a b → Met most w.clipped all a b
  clipped : w.clipped = true →
    ∃ a b, handled a b ∧ a ∈ all ∧ b ∈ next a.1 ∧ b ∉ all.map Prod.fst ∧ most ≤ all.length

section Search
variable {next : κ → List κ} {root k : κ} {most n bound : Nat} {w : Wave κ} {all waiting done : List (κ × Nat)}
  {handled : κ × Nat → κ → Prop} {p : κ × Nat} {c : κ}

/-- One edge: its end was met before, or there is no room for it, or it is met now. -/
theorem Swept.meet (h : Swept next root most w all waiting (p.2 + 1) handled) (hp : p ∈ all) (hc : c ∈ next p.1) :
    ∃ new, Swept next root most (w.meet most p.1 c) (all ++ new) (waiting ++ new) (p.2 + 1)
      (fun a b => handled a b ∨ (a = p ∧ b = c)) := by
  have hkeys : c ∈ w.parents.map Prod.fst ↔ c ∈ all.map Prod.fst := by rw [h.found.keys]
  have hlength := h.found.length
  unfold Wave.meet
  by_cases hknown : c ∈ all.map Prod.fst
  · rw [if_pos (hkeys.mpr hknown)]
    refine ⟨[], ?_⟩
    rw [List.append_nil, List.append_nil]
    refine ⟨h.found, h.queue, h.few, h.order, h.window, ?_, fun hclipped => ?_⟩
    · rintro a b (hab | ⟨rfl, rfl⟩)
      · exact h.met a b hab
      · obtain ⟨x, hx, rfl⟩ := List.mem_map.mp hknown
        exact .inl ⟨x.2, h.window x hx, hx⟩
    · obtain ⟨a, b, hab, hrest⟩ := h.clipped hclipped
      exact ⟨a, b, .inl hab, hrest⟩
  rw [if_neg (fun hin => hknown (hkeys.mp hin)), hlength]
  by_cases hfull : most ≤ all.length
  · rw [if_pos hfull]
    refine ⟨[], ?_⟩
    rw [List.append_nil, List.append_nil]
    refine ⟨h.found, h.queue, h.few, h.order, h.window, ?_, fun _ => ?_⟩
    · rintro a b (hab | ⟨rfl, rfl⟩)
      · rcases h.met a b hab with hmet | ⟨hout, hroom, -, hfar⟩
        · exact .inl hmet
        · exact .inr ⟨hout, hroom, rfl, hfar⟩
      · exact .inr ⟨hknown, hfull, rfl, h.window⟩
    · exact ⟨p, c, .inr ⟨rfl, rfl⟩, hp, hc, hknown, hfull⟩
  · rw [if_neg hfull]
    refine ⟨[(c, p.2 + 1)], h.found.step hp hc hknown, ?_, ?_, ?_, ?_, ?_, fun hclipped => ?_⟩
    · rw [h.queue, List.map_append]
      rfl
    · rw [List.length_append, List.length_singleton]
      omega
    · rw [List.pairwise_append]
      refine ⟨h.order, List.pairwise_singleton _ _, fun a ha b hb => ?_⟩
      rw [List.mem_singleton.mp hb]
      exact h.window a ha
    · intro a ha
      rcases List.mem_append.mp ha with ha | ha
      · exact h.window a ha
      · cases List.mem_singleton.mp ha
        exact Nat.le_refl _
    · rintro a b (hab | ⟨rfl, rfl⟩)
      · rcases h.met a b hab with ⟨m, hm, hb⟩ | ⟨-, hroom, -⟩
        · exact .inl ⟨m, hm, List.mem_append_left _ hb⟩
        · exact absurd hroom hfull
      · exact .inl ⟨a.2 + 1, Nat.le_refl _, List.mem_append_right _ (List.mem_singleton_self _)⟩
    · obtain ⟨a, b, -, -, -, -, hroom⟩ := h.clipped hclipped
      exact absurd hroom hfull

omit [DecidableEq κ] in
theorem Swept.congr {handled' : κ × Nat → κ → Prop} (h : Swept next root most w all waiting bound handled)
    (hsame : ∀ a b, handled a b ↔ handled' a b) : Swept next root most w all waiting bound handled' := by
  have heq : handled = handled' := by
    funext a b
    exact propext (hsame a b)
  exact heq ▸ h

/-- One round: the edges of the node that was taken off the queue. -/
theorem Swept.round {cs : List κ} (h : Swept next root most w all waiting (p.2 + 1) handled) (hp : p ∈ all)
    (hcs : ∀ c ∈ cs, c ∈ next p.1) :
    ∃ new, Swept next root most (cs.foldl (Wave.meet most p.1) w) (all ++ new) (waiting ++ new) (p.2 + 1)
      (fun a b => handled a b ∨ (a = p ∧ b ∈ cs)) := by
  induction cs generalizing w all waiting handled with
  | nil =>
    refine ⟨[], ?_⟩
    rw [List.append_nil, List.append_nil]
    exact h.congr (fun a b => by simp)
  | cons c cs ih =>
    obtain ⟨new, hmeet⟩ := h.meet hp (hcs c List.mem_cons_self)
    obtain ⟨more, hrest⟩ :=
      ih hmeet (List.mem_append_left _ hp) (fun c' hc' => hcs c' (List.mem_cons_of_mem c hc'))
    rw [List.append_assoc, List.append_assoc] at hrest
    refine ⟨new ++ more, hrest.congr (fun a b => ?_)⟩
    rw [List.mem_cons, or_assoc, ← and_or_left]

/-- With a round for each node there is room for, the search ends with its queue empty and every
edge of a node that it met followed. -/
theorem Swept.sweep (hn : most ≤ n + done.length)
    (h : Swept next root most w (done ++ waiting) waiting bound (fun a b => a ∈ done ∧ b ∈ next a.1))
    (hbound : ∀ q ∈ waiting.head?, bound ≤ q.2 + 1) :
    (w.sweep next most n).queue = [] ∧ ∃ all bound, Swept next root most (w.sweep next most n) all [] bound
      (fun a b => a ∈ all ∧ b ∈ next a.1) := by
  induction n generalizing w done waiting bound with
  | zero =>
    have hempty : waiting = [] := by
      have hfew := h.few
      rw [List.length_append] at hfew
      exact List.length_eq_zero_iff.mp (by omega)
    subst hempty
    rw [List.append_nil] at h
    exact ⟨h.queue, done, bound, h⟩
  | succ n ih =>
    cases waiting with
    | nil =>
      rw [List.append_nil] at h
      have hqueue : w.queue = [] := h.queue
      rw [Wave.sweep, hqueue]
      exact ⟨hqueue, done, bound, h⟩
    | cons p rest =>
      have hp : p ∈ done ++ p :: rest := List.mem_append_right _ List.mem_cons_self
      have hqueue : w.queue = p.1 :: rest.map Prod.fst := h.queue
      rw [Wave.sweep, hqueue]
      have htaken : Swept next root most { w with queue := rest.map Prod.fst } (done ++ p :: rest) rest (p.2 + 1)
          (fun a b => a ∈ done ∧ b ∈ next a.1) :=
        ⟨h.found, rfl, h.few, h.order, fun a ha => Nat.le_trans (h.window a ha) (hbound p (by rfl)), h.met, h.clipped⟩
      obtain ⟨new, hround⟩ := htaken.round hp (fun c hc => hc)
      have hsplit : done ++ p :: rest ++ new = (done ++ [p]) ++ (rest ++ new) := by
        rw [List.append_assoc, List.append_assoc, List.cons_append, List.singleton_append]
      rw [hsplit] at hround
      have hfollowed := @Swept.congr _ _ _ _ _ _ _ _ _ (fun a b => a ∈ done ++ [p] ∧ b ∈ next a.1) hround (fun a b => by
        rw [List.mem_append, List.mem_singleton, or_and_right]
        constructor
        · exact Or.imp_right (fun ⟨ha, hb⟩ => ⟨ha, ha ▸ hb⟩)
        · exact Or.imp_right (fun ⟨ha, hb⟩ => ⟨ha, ha ▸ hb⟩))
      refine ih (by rw [List.length_append, List.length_singleton]; omega) hfollowed (fun q hq => ?_)
      have hmem : q ∈ rest ++ new := List.mem_of_mem_head? hq
      have horder := hfollowed.order
      rw [List.append_assoc, List.singleton_append] at horder
      exact Nat.succ_le_succ ((List.pairwise_cons.mp (List.pairwise_append.mp horder).2.1).1 q hmem)

/-- Everything on a trail was met as early as the trail has it, or there was no room and nothing
that was met is further away; by induction on the trail. -/
theorem Swept.trail {path : List κ} (h : Swept next root most w all [] bound (fun a b => a ∈ all ∧ b ∈ next a.1))
    (hpath : Trail next root path k) :
    (∃ d, (k, d) ∈ all ∧ d + 1 ≤ path.length) ∨
      (k ∉ all.map Prod.fst ∧ w.clipped = true ∧ ∀ x ∈ all, x.2 + 1 ≤ path.length) := by
  induction hpath with
  | root => exact .inl ⟨0, h.found.root_mem, Nat.le_refl _⟩
  | @step path a b _ edge ih =>
    rw [List.length_append, List.length_singleton]
    rcases ih with ⟨d, ha, hd⟩ | ⟨-, hclipped, hfar⟩
    · rcases h.met (a, d) b ⟨ha, edge⟩ with ⟨m, hm, hb⟩ | ⟨hout, -, hclipped, hfar⟩
      · exact .inl ⟨m, hb, by simp only at hm; omega⟩
      · refine .inr ⟨hout, hclipped, fun x hx => ?_⟩
        have := hfar x hx
        simp only at this
        omega
    · by_cases hb : b ∈ all.map Prod.fst
      · obtain ⟨x, hx, rfl⟩ := List.mem_map.mp hb
        exact .inl ⟨x.2, hx, Nat.le_succ_of_le (hfar x hx)⟩
      · exact .inr ⟨hb, hclipped, fun x hx => Nat.le_succ_of_le (hfar x hx)⟩

omit [DecidableEq κ] in
theorem Swept.start (hmost : 1 ≤ most) :
    Swept next root most (Wave.start root) ([] ++ [(root, 0)]) [(root, 0)] 0 (fun a b => a ∈ [] ∧ b ∈ next a.1) := by
  refine ⟨.root, rfl, hmost, List.pairwise_singleton _ _, ?_, fun a b hab => absurd hab.1 List.not_mem_nil, ?_⟩
  · intro a ha
    cases List.mem_singleton.mp ha
    exact Nat.le_refl _
  · exact fun hclipped => absurd hclipped Bool.noConfusion

end Search

/-- What the search gives: the nodes it met, their number, a shortest trail to each, and whether
there are more. -/
structure Searched (next : κ → List κ) (root : κ) (most : Nat) (w : Wave κ) : Prop where
  finished : w.queue = []
  few : w.parents.length ≤ most
  distinct : (w.parents.map Prod.fst).Nodup
  begun : root ∈ w.parents.map Prod.fst
  trail : ∀ k ∈ w.parents.map Prod.fst, Trail next root (Wave.back w.parents most k).reverse k ∧
    ∀ path, Trail next root path k → (Wave.back w.parents most k).reverse.length ≤ path.length
  complete : w.clipped = false → ∀ path k, Trail next root path k → k ∈ w.parents.map Prod.fst
  clipped : w.clipped = true → ∃ path k, Trail next root path k ∧ k ∉ w.parents.map Prod.fst

theorem searched (next : κ → List κ) (root : κ) {most : Nat} (hmost : 1 ≤ most) :
    Searched next root most ((Wave.start root).sweep next most most) := by
  have hstart : Swept next root most (Wave.start root) ([] ++ [(root, 0)]) [(root, 0)] 0
      (fun a b => a ∈ [] ∧ b ∈ next a.1) := .start hmost
  have hroom : most ≤ most + ([] : List (κ × Nat)).length := Nat.le_refl _
  obtain ⟨hqueue, all, bound, h⟩ := hstart.sweep hroom (fun q _ => Nat.zero_le _)
  have hkeys := h.found.keys
  have hroot : root ∈ all.map Prod.fst := List.mem_map_of_mem h.found.root_mem
  refine ⟨hqueue, h.found.length ▸ h.few, hkeys ▸ h.found.nodup, hkeys ▸ hroot, fun k hk => ?_,
    fun hclipped path k hpath => ?_, fun hclipped => ?_⟩
  · rw [hkeys] at hk
    obtain ⟨x, hx, rfl⟩ := List.mem_map.mp hk
    obtain ⟨htrail, hlength⟩ := h.found.trail (d := x.2) hx h.few
    refine ⟨htrail, fun path hpath => ?_⟩
    rw [List.length_reverse, hlength]
    rcases h.trail hpath with ⟨d, hd, hle⟩ | ⟨hout, -⟩
    · have hsame : x.2 = d := congrArg Prod.snd (List.inj_on_of_nodup_map h.found.nodup hx hd rfl)
      omega
    · exact absurd (List.mem_map_of_mem hx) hout
  · rw [hkeys]
    rcases h.trail hpath with ⟨d, hd, -⟩ | ⟨-, hyes, -⟩
    · exact List.mem_map.mpr ⟨(k, d), hd, rfl⟩
    · exact absurd (hclipped.symm.trans hyes) Bool.noConfusion
  · obtain ⟨a, b, -, ha, hb, hout, -⟩ := h.clipped hclipped
    rw [hkeys]
    exact ⟨_, b, ((h.found.trail (d := a.2) ha (Nat.le_refl _)).1).step hb, hout⟩

end AItelier.Lib
