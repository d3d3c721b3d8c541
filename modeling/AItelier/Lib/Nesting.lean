import AItelier.Lib.Value

namespace AItelier.Lib

namespace Value

mutual

/-- The frames `json.dumps` with an indent takes for a value: one for each list and
dictionary it goes into, and one to write a float. -/
def frames : Value → Nat
  | null | bool _ | int _ | str _ => 0
  | float _ => 1
  | arr items => framesItems items + 1
  | obj fields => framesFields fields + 1

def framesItems : List Value → Nat
  | [] => 0
  | v :: items => max v.frames (framesItems items)

def framesFields : List (String × Value) → Nat
  | [] => 0
  | (_, v) :: fields => max v.frames (framesFields fields)

end

variable {items : List Value} {d : Dict} {v : Value} {n : Nat}

theorem framesItems_le : framesItems items ≤ n ↔ ∀ v ∈ items, v.frames ≤ n := by
  induction items with
  | nil => simp [framesItems]
  | cons v items ih => rw [framesItems, Nat.max_le, List.forall_mem_cons, ih]

theorem framesFields_le : framesFields d ≤ n ↔ ∀ f ∈ d, f.2.frames ≤ n := by
  induction d with
  | nil => simp [framesFields]
  | cons f d ih => rw [framesFields, Nat.max_le, List.forall_mem_cons, ih]

theorem frames_arr_le : (arr items).frames ≤ n + 1 ↔ ∀ v ∈ items, v.frames ≤ n := by
  rw [frames, Nat.add_le_add_iff_right, framesItems_le]

theorem frames_obj_le : (obj d).frames ≤ n + 1 ↔ ∀ f ∈ d, f.2.frames ≤ n := by
  rw [frames, Nat.add_le_add_iff_right, framesFields_le]

theorem frames_text (s : String) (n : Nat) : (str s).frames ≤ n := Nat.zero_le n

theorem frames_get (h : ∀ f ∈ d, f.2.frames ≤ n) (name : String) : (d.get name).frames ≤ n := by
  rw [Dict.get, Dict.find]
  cases hfind : List.find? (fun f => f.1 == name) d with
  | none => exact Nat.zero_le n
  | some f => exact h f (List.mem_of_find?_eq_some hfind)

theorem frames_put (h : ∀ f ∈ d, f.2.frames ≤ n) (hv : v.frames ≤ n) (name : String) :
    ∀ f ∈ d.put name v, f.2.frames ≤ n := by
  intro f hf
  rcases Dict.mem_put hf with rfl | hf
  · exact hv
  · exact h f hf

theorem frames_pop (h : ∀ f ∈ d, f.2.frames ≤ n) (name : String) : ∀ f ∈ d.pop name, f.2.frames ≤ n := by
  induction d with
  | nil => exact h
  | cons g rest ih =>
    have hrest : ∀ f ∈ rest, f.2.frames ≤ n := fun f hf => h f (List.mem_cons_of_mem g hf)
    rw [Dict.pop]
    split
    · exact hrest
    · exact List.forall_mem_cons.mpr ⟨h g List.mem_cons_self, ih hrest⟩

end Value

end AItelier.Lib
