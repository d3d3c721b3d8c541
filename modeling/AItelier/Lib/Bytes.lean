import Mathlib.Data.List.Basic
import Mathlib.Data.Fin.Basic
import Mathlib.Order.Fin.Basic
import Mathlib.Algebra.GroupWithZero.Nat

namespace AItelier.Lib

abbrev Byte := Fin 256

instance byte_neZero : NeZero 256 := ⟨by decide⟩

abbrev Bytes := List Byte

namespace Bytes

/-- The `k` low bytes of a number, the highest first. -/
def pack : Nat → Nat → Bytes
  | 0, _ => []
  | k + 1, n => pack k (n / 256) ++ [Fin.ofNat 256 n]

/-- The number that bytes spell, the highest first. -/
def value (bs : Bytes) : Nat := bs.foldl (fun acc b => acc * 256 + b.val) 0

/-- Four bytes at a time. -/
def words : Nat → Bytes → List Nat
  | 0, _ => []
  | k + 1, bs => value (bs.take 4) :: words k (bs.drop 4)

/-- `data[a:b]`. -/
def slice (data : Bytes) (a b : Nat) : Bytes := (data.drop a).take (b - a)

/-- How far the next zero byte is. -/
def nul (bs : Bytes) : Nat := bs.findIdx (fun b => decide (b = 0))

variable {k n : Nat} {bs rest data : Bytes}

@[simp] theorem length_pack (k n : Nat) : (pack k n).length = k := by
  induction k generalizing n with
  | zero => rfl
  | succ k ih => rw [pack, List.length_append, ih, List.length_singleton]

theorem value_append (bs : Bytes) (b : Byte) : value (bs ++ [b]) = value bs * 256 + b.val := by
  rw [value, List.foldl_append]
  rfl

theorem value_pack (k n : Nat) : value (pack k n) = n % 256 ^ k := by
  induction k generalizing n with
  | zero => rw [Nat.pow_zero, Nat.mod_one]; rfl
  | succ k ih =>
    have hlow : (Fin.ofNat 256 n).val = n % 256 := rfl
    rw [pack, value_append, ih, hlow, Nat.pow_succ, Nat.mul_comm (256 ^ k), Nat.mod_mul]
    omega

theorem value_pack_of_lt (h : n < 256 ^ k) : value (pack k n) = n := by
  rw [value_pack, Nat.mod_eq_of_lt h]

theorem words_pack (ns : List Nat) (h : ∀ n ∈ ns, n < 256 ^ 4) :
    words ns.length (ns.map (pack 4)).flatten = ns := by
  induction ns with
  | nil => rfl
  | cons n ns ih =>
    obtain ⟨hn, hns⟩ := List.forall_mem_cons.mp h
    have hlen : (pack 4 n).length = 4 := length_pack 4 n
    rw [List.length_cons, List.map_cons, List.flatten_cons, words, List.take_left' hlen, List.drop_left' hlen,
      value_pack_of_lt hn, ih hns]

theorem length_packs (ns : List Nat) : ((ns.map (pack 4)).flatten).length = 4 * ns.length := by
  induction ns with
  | nil => rfl
  | cons n ns ih =>
    rw [List.map_cons, List.flatten_cons, List.length_append, length_pack, ih, List.length_cons]
    omega

section Cursor

variable {pos : Nat}

theorem slice_at (h : data.drop pos = bs ++ rest) (hk : bs.length = k) : slice data pos (pos + k) = bs := by
  rw [slice, h, Nat.add_sub_cancel_left, List.take_left' hk]

/-- A read moves the cursor to what follows. -/
theorem drop_past (h : data.drop pos = bs ++ rest) (hk : bs.length = k) : data.drop (pos + k) = rest := by
  rw [← List.drop_drop, h, List.drop_left' hk]

theorem nul_at (h : (0 : Byte) ∉ bs) : nul (bs ++ 0 :: rest) = bs.length := by
  induction bs with
  | nil => rw [nul, List.nil_append, List.findIdx_cons]; rfl
  | cons b bs ih =>
    obtain ⟨hb, hbs⟩ := not_or.mp (fun hin => h (List.mem_cons.mpr hin))
    rw [nul, List.cons_append, List.findIdx_cons, decide_eq_false (Ne.symm hb), List.length_cons]
    exact congrArg (· + 1) (ih hbs)

end Cursor

section Offsets

def varintHigh (n : Nat) : Bytes :=
  match n with
  | 0 => []
  | n + 1 => varintHigh (n / 128) ++ [Fin.ofNat 256 (128 + n % 128)]
termination_by n
decreasing_by exact Nat.lt_succ_of_le (Nat.div_le_self n 128)

def varintBytes (n : Nat) : Bytes := varintHigh (n / 128) ++ [Fin.ofNat 256 (n % 128)]

/-- Reading on after the byte `c`, from the bytes at `pos`. -/
def varintLoop (rest : Bytes) (val : Nat) (c : Byte) (pos : Nat) : Option (Nat × Nat) :=
  if c.val < 128 then some (val, pos)
  else
    match rest with
    | [] => none
    | d :: rest => varintLoop rest ((val + 1) * 128 + d.val % 128) d (pos + 1)

def varint (data : Bytes) (pos : Nat) : Option (Nat × Nat) :=
  match data.drop pos with
  | [] => none
  | c :: rest => varintLoop rest (c.val % 128) c (pos + 1)

theorem varintLoop_last {c : Byte} {val pos : Nat} (h : c.val < 128) : varintLoop rest val c pos = some (val, pos) := by
  rw [varintLoop.eq_def, if_pos h]

theorem varintLoop_more {c d : Byte} {val pos : Nat} (h : 128 ≤ c.val) :
    varintLoop (d :: rest) val c pos = varintLoop rest ((val + 1) * 128 + d.val % 128) d (pos + 1) := by
  rw [varintLoop.eq_def, if_neg (Nat.not_lt.mpr h)]

/-- Reading the high bytes of `n`, and a byte after them. -/
theorem varint_high (n pos : Nat) (d : Byte) (tail : Bytes) (h : data.drop pos = varintHigh n ++ d :: tail) :
    varint data pos = varintLoop tail (n * 128 + d.val % 128) d (pos + (varintHigh n).length + 1) := by
  induction n using Nat.strongRecOn generalizing d tail with
  | ind n ih =>
    cases n with
    | zero =>
      rw [varintHigh, List.nil_append] at h
      rw [varint, h, varintHigh, Nat.zero_mul, Nat.zero_add]
      rfl
    | succ n =>
      have hc : (Fin.ofNat 256 (128 + n % 128)).val = 128 + n % 128 := by
        rw [Fin.val_ofNat]
        omega
      rw [varintHigh, List.append_assoc, List.singleton_append] at h
      rw [ih (n / 128) (Nat.lt_succ_of_le (Nat.div_le_self n 128)) _ _ h, varintLoop_more (by omega), hc,
        varintHigh, List.length_append, List.length_singleton]
      have hval : n / 128 * 128 + (128 + n % 128) % 128 + 1 = n + 1 := by omega
      rw [hval, Nat.add_assoc pos]

/-- What is written is read back, and the cursor stands after it. -/
theorem varint_at {pos : Nat} (h : data.drop pos = varintBytes n ++ rest) :
    varint data pos = some (n, pos + (varintBytes n).length) := by
  have hc : (Fin.ofNat 256 (n % 128)).val = n % 128 := by
    rw [Fin.val_ofNat]
    omega
  rw [varintBytes, List.append_assoc, List.singleton_append] at h
  rw [varint_high _ _ _ _ h, varintLoop_last (by omega), hc, varintBytes, List.length_append,
    List.length_singleton]
  have hval : n / 128 * 128 + n % 128 % 128 = n := by omega
  rw [hval, Nat.add_assoc]

end Offsets

section Hex

def hexDigits : List Char := "0123456789abcdef".toList

def hexDigit (n : Nat) : Char := hexDigits.getD n '0'

/-- `bytes.hex()`. -/
def hex : Bytes → List Char
  | [] => []
  | b :: bs => hexDigit (b.val / 16) :: hexDigit (b.val % 16) :: hex bs

def hexValue (c : Char) : Option Nat :=
  if c.toLower ∈ hexDigits then some (hexDigits.idxOf c.toLower) else none

def isSpace (c : Char) : Bool := decide (c ∈ [' ', '\t', '\n', '\r', '\x0b', '\x0c'])

/-- `bytes.fromhex`: two digits a byte, in either case, with spaces between the bytes. -/
def fromHex : List Char → Option Bytes
  | [] => some []
  | [c] => if isSpace c then some [] else none
  | c :: d :: rest =>
    if isSpace c then fromHex (d :: rest)
    else do
      let high ← hexValue c
      let low ← hexValue d
      let bytes ← fromHex rest
      some (Fin.ofNat 256 (high * 16 + low) :: bytes)

theorem hexDigits_read {c : Char} (h : c ∈ hexDigits) :
    isSpace c = false ∧ ∃ n < 16, hexValue c = some n ∧ hexDigit n = c := by
  have hall : hexDigits.all (fun c => !isSpace c &&
      (List.range 16).any (fun n => decide (hexValue c = some n ∧ hexDigit n = c))) = true := by decide
  have hc := List.all_eq_true.mp hall c h
  rw [Bool.and_eq_true, Bool.not_eq_true'] at hc
  obtain ⟨n, hn, hread⟩ := List.any_eq_true.mp hc.2
  exact ⟨hc.1, n, List.mem_range.mp hn, of_decide_eq_true hread⟩

/-- Digits in lower case are what their bytes are spelled with. -/
theorem fromHex_digits (k : Nat) (cs : List Char) (h : ∀ c ∈ cs, c ∈ hexDigits) (hlen : cs.length = 2 * k) :
    ∃ bs, fromHex cs = some bs ∧ bs.length = k ∧ hex bs = cs := by
  induction k generalizing cs with
  | zero =>
    obtain rfl := List.length_eq_zero_iff.mp hlen
    exact ⟨[], rfl, rfl, rfl⟩
  | succ k ih =>
    match cs, h, hlen with
    | c :: d :: cs, h, hlen =>
      obtain ⟨hc, h⟩ := List.forall_mem_cons.mp h
      obtain ⟨hd, h⟩ := List.forall_mem_cons.mp h
      obtain ⟨bs, hread, hbs, hspell⟩ := ih cs h (by simp only [List.length_cons] at hlen; omega)
      obtain ⟨hspace, m, hm, hmv, hmd⟩ := hexDigits_read hc
      obtain ⟨-, n, hn, hnv, hnd⟩ := hexDigits_read hd
      refine ⟨Fin.ofNat 256 (m * 16 + n) :: bs, ?_, congrArg (· + 1) hbs, ?_⟩
      · rw [fromHex, hspace, hmv, hnv, hread]
        rfl
      · have hval : (Fin.ofNat 256 (m * 16 + n)).val = m * 16 + n := by
          rw [Fin.val_ofNat]
          omega
        have hhigh : (m * 16 + n) / 16 = m := by omega
        have hlow : (m * 16 + n) % 16 = n := by omega
        rw [hex, hval, hhigh, hlow, hmd, hnd, hspell]
    | [], _, hlen => exact absurd hlen (by simp)
    | [_], _, hlen => exact absurd hlen (by simp only [List.length_singleton]; omega)

end Hex

end Bytes

end AItelier.Lib
