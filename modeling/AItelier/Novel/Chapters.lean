import AItelier.Lib.Value
import AItelier.State.Text

namespace AItelier.Novel

open AItelier.Lib

abbrev Text := List Char

/-- The decimal digits of every script, as `\d` and `int` read them. -/
structure Digits where
  value : Char → Option Nat
  ascii : ∀ c, c.isDigit = true → value c = some (c.toNat - '0'.toNat)

def Digits.int (d : Digits) (s : Text) : Option Nat := s.foldlM (fun n c => (d.value c).map (10 * n + ·)) 0

def chapterDirname (n : Nat) : Text :=
  'c' :: 'h' :: (List.replicate (4 - (Nat.toDigits 10 n).length) '0' ++ Nat.toDigits 10 n)

/-- `_CH_RE` and the number it captures; its `$` matches before a newline at the end too. -/
def chapterNumber (d : Digits) : Text → Option Nat
  | 'c' :: 'h' :: rest =>
    if rest.length = 4 ∨ (rest.length = 5 ∧ rest.getLast? = some '\n') then d.int (rest.take 4) else none
  | _ => none

/-- What stands under a name: a directory or not, with a file `prose.md` or not. -/
structure Item where
  isDir : Bool
  prose : Bool
  deriving DecidableEq, Repr

abbrev ChaptersDir := List (Text × Item)

def numberOf (d : Digits) (x : Text × Item) : Option Nat :=
  if x.2.isDir && x.2.prose then chapterNumber d x.1 else none

def writtenChapters (d : Digits) (c : ChaptersDir) : List Nat := (c.filterMap (numberOf d)).insertionSort (· ≤ ·)

def nextChapterNumber (d : Digits) (c : ChaptersDir) : Nat :=
  match (writtenChapters d c).getLast? with
  | some n => n + 1
  | none => 1

/-- What a call of `apply_state` finds: the two step outputs, and how `validate_events` and the
posting of the events end. -/
structure Call where
  chapterEvents : Except String Dict
  prose : Option Text
  validation : Except String Unit
  posting : Except String Unit

/-- `apply_state`: the number that is booked, and the chapters after it. A posting that fails
takes the chapter's directory with it. -/
def applyState (d : Digits) (c : ChaptersDir) (call : Call) : Except String (Nat × ChaptersDir) := do
  let record ← call.chapterEvents
  let _ ← orElse call.prose "apply_state: chapter_final.md not found"
  let n := nextChapterNumber d c
  let declared := record.get "chapter"
  ensure (declared.pyEq (.int n) = true) ("apply_state: chapter_events.json declares chapter " ++ declared.repr ++
    " but the next unwritten chapter is " ++ toString n ++
    " — refusing to book a mismatched journal (stale finalize output?)")
  ensure (State.strip ((record.get "summary").orElse (.str "")).toText ≠ "")
    "apply_state: summary is empty — the digest and future context depend on it"
  ensure (chapterDirname n ∉ c.map Prod.fst) (String.ofList (chapterDirname n) ++
    " already exists — chapters are append-only (rollback goes through git)")
  call.validation
  call.posting
  return (n, c ++ [(chapterDirname n, ⟨true, true⟩)])

/-- The numbers booked by the calls that succeed, and the chapters at the end. -/
def bookAll (d : Digits) : ChaptersDir → List Call → List Nat × ChaptersDir
  | c, [] => ([], c)
  | c, call :: calls =>
    match applyState d c call with
    | .ok (n, c') => (n :: (bookAll d c' calls).1, (bookAll d c' calls).2)
    | .error _ => bookAll d c calls

variable {d : Digits} {c c' : ChaptersDir} {n m k : Nat} {call : Call}

/-- The digits of a name. -/
def padded (n : Nat) : Text := List.replicate (4 - (Nat.toDigits 10 n).length) '0' ++ Nat.toDigits 10 n

theorem padded_digit {c : Char} (h : c ∈ padded n) : c.isDigit = true := by
  rcases List.mem_append.mp h with h | h
  · rw [List.eq_of_mem_replicate h]
    decide
  · exact Nat.isDigit_of_mem_toDigits (by decide) (by decide) h

theorem padded_value (n : Nat) : Nat.ofDigitChars 10 (padded n) 0 = n := by
  rw [padded, Nat.ofDigitChars_append, Nat.ofDigitChars_replicate_zero, Nat.mul_zero, Nat.ofDigitChars_ten_toDigits]

theorem padded_length (h : n ≤ 9999) : (padded n).length = 4 := by
  have hle : (Nat.toDigits 10 n).length ≤ 4 := (Nat.length_toDigits_le_iff (by decide) (by decide)).mpr (by omega)
  rw [padded, List.length_append, List.length_replicate]
  omega

theorem padded_long (h : 10000 ≤ n) : 5 ≤ (padded n).length := by
  have hlt : ¬ (Nat.toDigits 10 n).length ≤ 4 := by
    rw [Nat.length_toDigits_le_iff (by decide) (by decide)]
    omega
  rw [padded, List.length_append, List.length_replicate]
  omega

theorem chapterDirname_inj (h : chapterDirname n = chapterDirname m) : n = m := by
  have hrest : padded n = padded m := by
    have htail := congrArg (List.drop 2) h
    exact htail
  rw [← padded_value n, hrest, padded_value]

theorem int_digits {s : Text} (h : ∀ c ∈ s, c.isDigit = true) : d.int s = some (Nat.ofDigitChars 10 s 0) := by
  unfold Digits.int
  generalize 0 = init
  induction s generalizing init with
  | nil => rfl
  | cons c s ih =>
    rw [List.foldlM_cons, d.ascii c (h c List.mem_cons_self), Nat.ofDigitChars_cons]
    exact ih (fun c hc => h c (List.mem_cons_of_mem _ hc)) _

theorem chapterNumber_dirname (h : n ≤ 9999) : chapterNumber d (chapterDirname n) = some n := by
  have hlen := padded_length h
  have hread : chapterNumber d (chapterDirname n) = if (padded n).length = 4 ∨
      ((padded n).length = 5 ∧ (padded n).getLast? = some '\n') then d.int ((padded n).take 4) else none := rfl
  rw [hread, if_pos (.inl hlen), List.take_of_length_le (by omega), int_digits (fun _ hc => padded_digit hc),
    padded_value]

theorem chapterNumber_long (h : 10000 ≤ n) : chapterNumber d (chapterDirname n) = none := by
  have hlen := padded_long h
  have hread : chapterNumber d (chapterDirname n) = if (padded n).length = 4 ∨
      ((padded n).length = 5 ∧ (padded n).getLast? = some '\n') then d.int ((padded n).take 4) else none := rfl
  rw [hread, if_neg]
  rintro (hfour | ⟨-, hlast⟩)
  · omega
  · exact absurd (padded_digit (List.mem_of_getLast? hlast)) (by decide)

/-- Nothing else in the directory is named like a chapter. -/
structure Booked (d : Digits) (c : ChaptersDir) (k : Nat) : Prop where
  names : (c.map Prod.fst).Nodup
  here : ∀ m, 1 ≤ m → m ≤ k → (chapterDirname m, ⟨true, true⟩) ∈ c
  only : ∀ x ∈ c, (∃ m, x.1 = chapterDirname m) ∨ (chapterNumber d x.1).isSome = true →
    ∃ m, 1 ≤ m ∧ m ≤ k ∧ x = (chapterDirname m, ⟨true, true⟩)

theorem Booked.numberOf_some (h : Booked d c k) {x : Text × Item} (hx : x ∈ c) :
    numberOf d x = some n ↔ 1 ≤ n ∧ n ≤ k ∧ n ≤ 9999 ∧ x = (chapterDirname n, ⟨true, true⟩) := by
  constructor
  · intro hn
    unfold numberOf at hn
    split at hn
    · obtain ⟨m, hm, hmk, rfl⟩ := h.only x hx (.inr (by rw [hn]; rfl))
      by_cases hshort : m ≤ 9999
      · rw [chapterNumber_dirname hshort] at hn
        cases hn
        exact ⟨hm, hmk, hshort, rfl⟩
      · rw [chapterNumber_long (by omega)] at hn
        cases hn
    · cases hn
  · rintro ⟨-, -, hshort, rfl⟩
    exact chapterNumber_dirname hshort

/-- The numbers read back are those of four digits. -/
theorem Booked.written (h : Booked d c k) : writtenChapters d c = List.range' 1 (min k 9999) := by
  have hnodup : (c.filterMap (numberOf d)).Nodup := by
    apply List.pairwise_filterMap.mpr
    have hdistinct : c.Pairwise (fun x y => x.1 ≠ y.1) := List.pairwise_map.mp h.names
    refine hdistinct.imp_of_mem ?_
    intro x y hx hy hne n hn n' hn' heq
    obtain ⟨-, -, -, rfl⟩ := (h.numberOf_some hx).mp hn
    obtain ⟨-, -, -, rfl⟩ := (h.numberOf_some hy).mp hn'
    exact hne (heq ▸ rfl)
  have hmem (n : Nat) : n ∈ c.filterMap (numberOf d) ↔ n ∈ List.range' 1 (min k 9999) := by
    rw [List.mem_filterMap, List.mem_range'_1]
    constructor
    · rintro ⟨x, hx, hn⟩
      obtain ⟨hone, hk, hshort, -⟩ := (h.numberOf_some hx).mp hn
      omega
    · intro hn
      have hx := h.here n (by omega) (by omega)
      exact ⟨_, hx, (h.numberOf_some hx).mpr ⟨by omega, by omega, by omega, rfl⟩⟩
  have hperm : (writtenChapters d c).Perm (List.range' 1 (min k 9999)) :=
    (List.perm_insertionSort _ _).trans ((List.perm_ext_iff_of_nodup hnodup List.nodup_range').mpr hmem)
  exact hperm.eq_of_pairwise' (List.pairwise_insertionSort _ _) List.pairwise_le_range'

theorem Booked.next (h : Booked d c k) : nextChapterNumber d c = min k 9999 + 1 := by
  rw [nextChapterNumber, h.written]
  generalize min k 9999 = j
  cases j with
  | zero => rfl
  | succ j =>
    rw [List.range'_concat, List.getLast?_concat]
    simp only
    omega

theorem Booked.append (h : Booked d c k) (hnew : chapterDirname (k + 1) ∉ c.map Prod.fst) :
    Booked d (c ++ [(chapterDirname (k + 1), ⟨true, true⟩)]) (k + 1) where
  names := by
    rw [List.map_append, List.nodup_append]
    refine ⟨h.names, List.nodup_singleton _, fun a ha b hb heq => ?_⟩
    have hname : b = chapterDirname (k + 1) := List.mem_singleton.mp hb
    rw [heq, hname] at ha
    exact hnew ha
  here := by
    intro m hm hmk
    by_cases hlast : m = k + 1
    · rw [hlast]
      exact List.mem_append_right _ (List.mem_singleton.mpr rfl)
    · exact List.mem_append_left _ (h.here m hm (by omega))
  only := by
    intro x hx hnamed
    rcases List.mem_append.mp hx with hx | hx
    · obtain ⟨m, hm, hmk, rfl⟩ := h.only x hx hnamed
      exact ⟨m, hm, by omega, rfl⟩
    · rw [List.mem_singleton] at hx
      exact ⟨k + 1, by omega, Nat.le_refl _, hx⟩

/-- The step outputs are there and name this chapter, and nothing goes wrong after that. -/
structure Call.Books (call : Call) (n : Nat) : Prop where
  record : ∃ record, call.chapterEvents = .ok record ∧ (record.get "chapter").pyEq (.int n) = true ∧
    State.strip ((record.get "summary").orElse (.str "")).toText ≠ ""
  prose : call.prose ≠ none
  accepted : call.validation = .ok ()
  posted : call.posting = .ok ()

/-- The step outputs name this chapter. -/
def Call.declares (call : Call) (n : Nat) : Prop :=
  ∃ record, call.chapterEvents = .ok record ∧ (record.get "chapter").pyEq (.int n) = true

theorem applyState_ok {r : Nat × ChaptersDir} : applyState d c call = .ok r ↔
    call.Books (nextChapterNumber d c) ∧ chapterDirname (nextChapterNumber d c) ∉ c.map Prod.fst ∧
      r = (nextChapterNumber d c, c ++ [(chapterDirname (nextChapterNumber d c), ⟨true, true⟩)]) := by
  unfold applyState
  simp only [bind_ok, orElse_ok, ensure_ok, pure_ok]
  constructor
  · rintro ⟨record, hrecord, prose, hprose, _, hdeclared, _, hsummary, _, hnew, _, haccepted, _, hposted, hr⟩
    refine ⟨⟨⟨record, hrecord, hdeclared, hsummary⟩, ?_, haccepted, hposted⟩, hnew, hr.symm⟩
    rw [hprose]
    exact Option.some_ne_none _
  · rintro ⟨⟨⟨record, hrecord, hdeclared, hsummary⟩, hprose, haccepted, hposted⟩, hnew, rfl⟩
    obtain ⟨prose, hprose⟩ := Option.ne_none_iff_exists'.mp hprose
    exact ⟨record, hrecord, prose, hprose, (), hdeclared, (), hsummary, (), hnew, (), haccepted, (), hposted, rfl⟩

theorem int_unique {v : Value} {a b : Int} (ha : v.pyEq (.int a) = true) (hb : v.pyEq (.int b) = true) : a = b := by
  have hsome : some a = some b := by
    cases v <;> simp_all [Value.pyEq, Value.whole?]
  exact Option.some.inj hsome

/-- A chapter is booked in its turn, and then the next one is. -/
def Numbered (d : Digits) (n : Nat) : Prop :=
  ∀ (c : ChaptersDir) (call : Call), Booked d c (n - 1) → call.Books n → ∃ c', applyState d c call = .ok (n, c') ∧
    writtenChapters d c' = List.range' 1 n ∧ nextChapterNumber d c' = n + 1 ∧
    ∀ again : Call, again.declares n → ∃ error, applyState d c' again = .error error

theorem numbered_of_short (hn : 1 ≤ n) (h : n ≤ 9999) : Numbered d n := by
  intro c call hbooked hbooks
  have hnext : nextChapterNumber d c = n := by
    rw [hbooked.next]
    omega
  have hnew : chapterDirname n ∉ c.map Prod.fst := by
    intro hin
    obtain ⟨x, hx, hname⟩ := List.mem_map.mp hin
    obtain ⟨m, -, hm, rfl⟩ := hbooked.only x hx (.inl ⟨n, hname⟩)
    have := chapterDirname_inj hname
    omega
  obtain ⟨k, rfl⟩ : ∃ k, n = k + 1 := ⟨n - 1, by omega⟩
  have hafter := Booked.append (k := k) hbooked hnew
  refine ⟨_, applyState_ok.mpr ⟨hnext ▸ hbooks, by rw [hnext]; exact hnew, by rw [hnext]⟩, ?_, ?_,
    fun again hagain => ?_⟩
  · rw [hafter.written, Nat.min_eq_left h]
  · rw [hafter.next]
    omega
  · cases hrun : applyState d (c ++ [(chapterDirname (k + 1), ⟨true, true⟩)]) again with
    | error error => exact ⟨error, rfl⟩
    | ok r =>
      obtain ⟨⟨⟨record, hrecord, hdeclared, -⟩, -, -, -⟩, -, -⟩ := applyState_ok.mp hrun
      obtain ⟨record', hrecord', hdeclared'⟩ := hagain
      rw [hrecord] at hrecord'
      cases hrecord'
      have heq := int_unique hdeclared hdeclared'
      rw [hafter.next] at heq
      omega

/-- The directory after the first chapters, however many. -/
def chapters (k : Nat) : ChaptersDir := (List.range' 1 k).map (fun m => (chapterDirname m, ⟨true, true⟩))

theorem chapters_booked (d : Digits) (k : Nat) : Booked d (chapters k) k where
  names := by
    rw [chapters, List.map_map]
    exact List.Nodup.map (fun _ _ h => chapterDirname_inj h) List.nodup_range'
  here := fun m hm hmk => List.mem_map.mpr ⟨m, List.mem_range'_1.mpr (by omega), rfl⟩
  only := by
    intro x hx _
    obtain ⟨m, hm, rfl⟩ := List.mem_map.mp hx
    have hbounds := List.mem_range'_1.mp hm
    exact ⟨m, hbounds.1, by omega, rfl⟩

def recordFor (n : Nat) : Dict := [("chapter", .int n), ("summary", .str "s")]

/-- A call that names this chapter and goes well. -/
def callFor (n : Nat) : Call := ⟨.ok (recordFor n), some [], .ok (), .ok ()⟩

theorem recordFor_summary (n : Nat) : State.strip (((recordFor n).get "summary").orElse (.str "")).toText ≠ "" := by
  have hget : (recordFor n).get "summary" = .str "s" := rfl
  rw [hget]
  decide

theorem callFor_books (n : Nat) : (callFor n).Books n where
  record := ⟨_, rfl, by simp [recordFor, Dict.get, Dict.find, Value.pyEq, Value.whole?], recordFor_summary n⟩
  prose := Option.some_ne_none _
  accepted := rfl
  posted := rfl

/-- The directory of chapter 10000 is not read back, so the chapter is booked without its
number moving on, and no later chapter is booked at all. -/
theorem not_numbered (h : 10000 ≤ n) : ¬ Numbered d n := by
  intro hnumbered
  have hbooked := chapters_booked d (n - 1)
  obtain ⟨c', hrun, hwritten, hnext, -⟩ := hnumbered _ _ hbooked (callFor_books n)
  obtain ⟨-, hnew, hr⟩ := applyState_ok.mp hrun
  have hn : n = nextChapterNumber d (chapters (n - 1)) := congrArg Prod.fst hr
  have hlast : n = 10000 := by
    rw [hbooked.next] at hn
    omega
  subst hlast
  rw [← hn] at hnew hr
  have hafter := Booked.append (k := 9999) hbooked hnew
  cases hr
  rw [hafter.next] at hnext
  omega

theorem Booked.step (h : Booked d c k) (hrun : applyState d c call = .ok (n, c')) :
    n = k + 1 ∧ Booked d c' (k + 1) := by
  obtain ⟨-, hnew, hr⟩ := applyState_ok.mp hrun
  have hn : n = nextChapterNumber d c := congrArg Prod.fst hr
  have hc' : c' = _ := congrArg Prod.snd hr
  -- past the numbers that are read back, the next directory is there already
  have hk : k ≤ 9999 := by
    by_contra hlong
    have hhere := h.here (nextChapterNumber d c) (by rw [h.next]; omega) (by rw [h.next]; omega)
    exact hnew (List.mem_map_of_mem hhere)
  have hnext : nextChapterNumber d c = k + 1 := by
    rw [h.next]
    omega
  rw [hnext] at hnew hn hc'
  exact ⟨hn, hc' ▸ h.append hnew⟩

theorem bookAll_in_order (h : Booked d c k) (calls : List Call) :
    ∃ j, (bookAll d c calls).1 = List.range' (k + 1) j := by
  induction calls generalizing c k with
  | nil => exact ⟨0, rfl⟩
  | cons call calls ih =>
    rw [bookAll]
    cases hrun : applyState d c call with
    | error error => exact ih h
    | ok r =>
      obtain ⟨n, c'⟩ := r
      obtain ⟨rfl, hafter⟩ := h.step hrun
      obtain ⟨j, hj⟩ := ih hafter
      refine ⟨j + 1, ?_⟩
      rw [List.range'_succ, ← hj]

/-- Every chapter up to 9999 is booked in its turn and counted, no later one is, and in any
run the numbers that are booked are 1, 2, 3 and so on. -/
theorem chapter_numbering (d : Digits) : (∀ n, 1 ≤ n → (Numbered d n ↔ n ≤ 9999)) ∧
    ∀ calls : List Call, ∃ j, (bookAll d [] calls).1 = List.range' 1 j := by
  refine ⟨fun n hn => ⟨fun h => ?_, numbered_of_short hn⟩, fun calls => ?_⟩
  · by_contra hlong
    exact not_numbered (by omega) h
  · have hnone : Booked d [] 0 := chapters_booked d 0
    exact bookAll_in_order hnone calls

/-- The ASCII digits alone. -/
def asciiDigits : Digits where
  value c := if c.isDigit then some (c.toNat - '0'.toNat) else none
  ascii := fun _ h => if_pos h

/-- Chapter 10000 is booked and not counted. -/
theorem chapter_10000_uncounted : ¬ Numbered asciiDigits 10000 := not_numbered (Nat.le_refl _)

end AItelier.Novel
