import Mathlib.Data.List.Basic

namespace AItelier.Lib

/-- Text mode reads every line ending as a newline. -/
def universal : List Char → List Char
  | '\r' :: '\n' :: rest => '\n' :: universal rest
  | '\r' :: rest => '\n' :: universal rest
  | c :: rest => c :: universal rest
  | [] => []

/-- The characters `str.splitlines` ends a line at. -/
def isLineEnd (c : Char) : Bool :=
  let n := c.toNat
  (10 ≤ n && n ≤ 13) || (28 ≤ n && n ≤ 30) || n = 0x85 || n = 0x2028 || n = 0x2029

variable {s : List Char}

theorem universal_eq_self (h : '\r' ∉ s) : universal s = s := by
  fun_induction universal s <;> simp_all

theorem cr_not_mem_universal (s : List Char) : '\r' ∉ universal s := by
  fun_induction universal s with
  | case3 c rest _ hreturn ih => exact List.not_mem_cons_of_ne_of_not_mem (fun h => hreturn h.symm) ih
  | case4 => exact List.not_mem_nil
  | _ ih => exact List.not_mem_cons_of_ne_of_not_mem (by decide) (by assumption)

theorem universal_eq_nil : universal s = [] ↔ s = [] := by
  fun_induction universal s <;> simp

end AItelier.Lib
