import Mathlib.Data.List.Basic

namespace AItelier.Lib.Base64

def alphabet : List Char := "ABCDEFGHIJKLMNOPQRSTUVWXYZabcdefghijklmnopqrstuvwxyz0123456789-_".toList

def digit (n : Nat) : Char := alphabet.getD n 'A'

/-- The six bits of a character; the standard alphabet's last two are read too. -/
def digitValue (c : Char) : Option Nat :=
  if c = '+' then some 62
  else if c = '/' then some 63
  else if c ∈ alphabet then some (alphabet.idxOf c)
  else none

def encode : List Nat → List Char
  | a :: b :: c :: rest =>
    digit (a / 4) :: digit (a % 4 * 16 + b / 16) :: digit (b % 16 * 4 + c / 64) :: digit (c % 64) :: encode rest
  | [a, b] => [digit (a / 4), digit (a % 4 * 16 + b / 16), digit (b % 16 * 4), '=']
  | [a] => [digit (a / 4), digit (a % 4 * 16), '=', '=']
  | [] => []

/-- Reading on at a place in a group of four, with the bits left over and the
padding seen. Characters of no alphabet are skipped, and the padding that fills a
group ends the text. -/
def decodeFrom : Nat → Nat → Nat → List Char → Option (List Nat)
  | place, _, _, [] => if place = 0 then some [] else none
  | place, left, pads, c :: rest =>
    if c = '=' then
      if 2 ≤ place ∧ 4 ≤ place + (pads + 1) then some []
      else decodeFrom place left (if 2 ≤ place then pads + 1 else pads) rest
    else
      match digitValue c with
      | none => decodeFrom place left pads rest
      | some d =>
        if place = 0 then decodeFrom 1 d 0 rest
        else if place = 1 then (decodeFrom 2 (d % 16) 0 rest).map ((left * 4 + d / 16) :: ·)
        else if place = 2 then (decodeFrom 3 (d % 4) 0 rest).map ((left * 16 + d / 4) :: ·)
        else (decodeFrom 0 0 0 rest).map ((left * 64 + d) :: ·)

def decode (cs : List Char) : Option (List Nat) := decodeFrom 0 0 0 cs

theorem alphabet_list : alphabet =
    ['A', 'B', 'C', 'D', 'E', 'F', 'G', 'H', 'I', 'J', 'K', 'L', 'M', 'N', 'O', 'P', 'Q', 'R', 'S', 'T', 'U',
      'V', 'W', 'X', 'Y', 'Z',
      'a', 'b', 'c', 'd', 'e', 'f', 'g', 'h', 'i', 'j', 'k', 'l', 'm', 'n', 'o', 'p', 'q', 'r', 's', 't', 'u',
      'v', 'w', 'x', 'y', 'z',
      '0', '1', '2', '3', '4', '5', '6', '7', '8', '9', '-', '_'] := String.toList_ofList

theorem digit_spec {n : Nat} (h : n < 64) : digitValue (digit n) = some n ∧ digit n ≠ '=' ∧ (digit n).toNat < 128 := by
  revert n
  simp only [digit, digitValue, alphabet_list]
  decide

theorem digitValue_digit {n : Nat} (h : n < 64) : digitValue (digit n) = some n := (digit_spec h).1

theorem digit_ne_pad {n : Nat} (h : n < 64) : digit n ≠ '=' := (digit_spec h).2.1

theorem digit_ascii {n : Nat} (h : n < 64) : (digit n).toNat < 128 := (digit_spec h).2.2

variable {n d left pads : Nat} {c : Char} {rest : List Char}

theorem decodeFrom_value (hpad : c ≠ '=') (hvalue : digitValue c = some d) :
    decodeFrom 0 left pads (c :: rest) = decodeFrom 1 d 0 rest ∧
      decodeFrom 1 left pads (c :: rest) = (decodeFrom 2 (d % 16) 0 rest).map ((left * 4 + d / 16) :: ·) ∧
      decodeFrom 2 left pads (c :: rest) = (decodeFrom 3 (d % 4) 0 rest).map ((left * 16 + d / 4) :: ·) ∧
      decodeFrom 3 left pads (c :: rest) = (decodeFrom 0 0 0 rest).map ((left * 64 + d) :: ·) := by
  simp [decodeFrom, hpad, hvalue]

theorem decodeFrom_first (h : n < 64) : decodeFrom 0 left pads (digit n :: rest) = decodeFrom 1 n 0 rest :=
  (decodeFrom_value (digit_ne_pad h) (digitValue_digit h)).1

theorem decodeFrom_second (h : n < 64) :
    decodeFrom 1 left pads (digit n :: rest) = (decodeFrom 2 (n % 16) 0 rest).map ((left * 4 + n / 16) :: ·) :=
  (decodeFrom_value (digit_ne_pad h) (digitValue_digit h)).2.1

theorem decodeFrom_third (h : n < 64) :
    decodeFrom 2 left pads (digit n :: rest) = (decodeFrom 3 (n % 4) 0 rest).map ((left * 16 + n / 4) :: ·) :=
  (decodeFrom_value (digit_ne_pad h) (digitValue_digit h)).2.2.1

theorem decodeFrom_fourth (h : n < 64) :
    decodeFrom 3 left pads (digit n :: rest) = (decodeFrom 0 0 0 rest).map ((left * 64 + n) :: ·) :=
  (decodeFrom_value (digit_ne_pad h) (digitValue_digit h)).2.2.2

/-- What is encoded reads back. -/
theorem decode_encode (bytes : List Nat) (h : ∀ b ∈ bytes, b < 256) : decode (encode bytes) = some bytes := by
  unfold decode
  induction bytes using encode.induct with
  | case1 a b c rest ih =>
    have ha : a < 256 := h a (by simp)
    have hb : b < 256 := h b (by simp)
    have hc : c < 256 := h c (by simp)
    have hrest := ih (fun x hx => h x (by simp [hx]))
    rw [encode, decodeFrom_first (by omega), decodeFrom_second (by omega), decodeFrom_third (by omega),
      decodeFrom_fourth (by omega), hrest]
    simp only [Option.map_some, Option.some.injEq, List.cons.injEq, and_true]
    omega
  | case2 a b =>
    have ha : a < 256 := h a (by simp)
    have hb : b < 256 := h b (by simp)
    rw [encode, decodeFrom_first (by omega), decodeFrom_second (by omega), decodeFrom_third (by omega)]
    simp only [decodeFrom, if_true, Nat.reduceLeDiff, Nat.reduceAdd, and_self, Option.map_some, Option.some.injEq,
      List.cons.injEq, and_true]
    omega
  | case3 a =>
    have ha : a < 256 := h a (by simp)
    rw [encode, decodeFrom_first (by omega), decodeFrom_second (by omega)]
    simp only [decodeFrom, if_true, Nat.reduceLeDiff, Nat.reduceAdd, and_false, if_false, Nat.le_refl, and_self,
      Option.map_some, Option.some.injEq, List.cons.injEq, and_true]
    omega
  | case4 => rfl

theorem length_encode (bytes : List Nat) : (encode bytes).length = 4 * ((bytes.length + 2) / 3) := by
  induction bytes using encode.induct with
  | case1 a b c rest ih =>
    simp only [encode, List.length_cons, ih]
    omega
  | case2 a b => simp [encode]
  | case3 a => simp [encode]
  | case4 => simp [encode]

theorem encode_ascii (bytes : List Nat) (h : ∀ b ∈ bytes, b < 256) : ∀ c ∈ encode bytes, c.toNat < 128 := by
  induction bytes using encode.induct with
  | case1 a b c rest ih =>
    have ha : a < 256 := h a (by simp)
    have hb : b < 256 := h b (by simp)
    have hc : c < 256 := h c (by simp)
    simp only [encode, List.forall_mem_cons]
    exact ⟨digit_ascii (by omega), digit_ascii (by omega), digit_ascii (by omega), digit_ascii (by omega),
      ih fun x hx => h x (by simp [hx])⟩
  | case2 a b =>
    have ha : a < 256 := h a (by simp)
    have hb : b < 256 := h b (by simp)
    simp only [encode, List.forall_mem_cons]
    exact ⟨digit_ascii (by omega), digit_ascii (by omega), digit_ascii (by omega), by decide, by simp⟩
  | case3 a =>
    have ha : a < 256 := h a (by simp)
    simp only [encode, List.forall_mem_cons]
    exact ⟨digit_ascii (by omega), digit_ascii (by omega), by decide, by decide, by simp⟩
  | case4 => simp [encode]

end AItelier.Lib.Base64
