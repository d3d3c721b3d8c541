import Mathlib.Data.List.Nodup
import AItelier.Lib.Entries
import AItelier.Lib.Outcome
import AItelier.Lib.ValueText
import Mathlib.Algebra.GroupWithZero.Nat

namespace AItelier.Review

open AItelier.Lib

def maxItems : Nat := 16

def maxItemBytes : Nat := 16384

def maxTotalBytes : Nat := 32768

def inputPrefix : String := "review_input_"

/-- What the standard library does: Base64 with `validate=True` and what it raises, SHA-256 as
hexadecimal digits, and what decoding raises for bytes that are not UTF-8. -/
structure Host where
  b64decode : String → Except String ByteArray
  sha256 : ByteArray → String
  undecodable : ByteArray → String

/-- A dictionary with exactly these keys. -/
def dictWith (keys : List String) : Value → Bool
  | .obj d => d.all (fun f => keys.contains f.1) && keys.all (Dict.has d)
  | _ => false

def itemsOf (v : Value) : List Value :=
  match field v "items" with
  | .arr items => items
  | _ => []

/-- A text of a length. -/
def boundedText (most : Nat) : Value → Bool
  | .str s => decide (1 ≤ s.length ∧ s.length ≤ most)
  | _ => false

/-- All values of a dictionary are identities. -/
def identities : Value → Bool
  | .obj d => d.all (fun f => boundedText 128 f.2)
  | _ => false

/-- `_NAME.fullmatch`. -/
def isName (s : String) : Bool :=
  match s.toList with
  | [] => false
  | c :: rest => c.isAlphanum && decide (rest.length ≤ 95) &&
      rest.all (fun c => c.isAlphanum || ['_', '.', '-'].contains c)

/-- `_SHA.fullmatch`. -/
def isSha (s : String) : Bool :=
  decide (s.length = 64) && s.toList.all (fun c => c.isDigit || decide ('a' ≤ c ∧ c ≤ 'f'))

def textOf : Value → String
  | .str s => s
  | _ => ""

def sizeOf : Value → Nat
  | .int i => i.toNat
  | _ => 0

def itemKeys : List String := ["name", "reference", "sha256", "size", "content_base64"]

/-- The checks of a name that was not declared before, and of a reference. -/
def namedOnce (names : List String) (item : Value) : Bool :=
  match field item "name", field item "reference" with
  | .str name, .str reference => isName name && !names.contains name &&
      decide (1 ≤ reference.length ∧ reference.length ≤ 512) &&
      !("/".toList.isPrefixOf reference.toList || "file:".toList.isPrefixOf reference.toList)
  | _, _ => false

def sizedInt : Value → Bool
  | .int i => decide (0 < i ∧ i ≤ maxItemBytes)
  | _ => false

def sentContent : Value → Bool
  | .null => true
  | .str s => decide (s.length ≤ 4 * ((maxItemBytes + 2) / 3))
  | _ => false

def shaText : Value → Bool
  | .str s => isSha s
  | _ => false

/-- The loop over the items; it collects the names. -/
def checkItem (names : List String) (item : Value) : Except String (List String) := do
  ensure (dictWith itemKeys item = true) "bundle item has an unknown shape"
  ensure (namedOnce names item = true) "bundle names must be unique basenames and references must be opaque identities"
  ensure (shaText (field item "sha256") = true) "bundle item requires an exact sha256"
  ensure (sizedInt (field item "size") = true) "bundle item exceeds the declared size bound"
  ensure (sentContent (field item "content_base64") = true) "bundle encoded input exceeds size bound"
  return names ++ [textOf (field item "name")]

def bundleKeys (arguments : Value) : List String :=
  if dictWith ["producer", "items", "acceptance"] arguments then ["producer", "items", "acceptance"]
    else ["producer", "items"]

/-- `_shape`. -/
def shape (arguments : Value) : Except String Unit := do
  let keys := bundleKeys arguments
  ensure (dictWith keys arguments = true)
    "review_input_bundle requires exactly producer and items, plus optional acceptance"
  let producer := field arguments "producer"
  ensure (dictWith ["project_id", "attempt_id", "artifact"] producer = true ∧ identities producer = true)
    "bundle producer requires project_id, attempt_id and artifact identities"
  let acceptance := field arguments "acceptance"
  ensure ("acceptance" ∈ keys → dictWith ["receipt_id", "primary_item"] acceptance = true ∧
    identities acceptance = true)
    "bundle acceptance requires exactly receipt_id and primary_item"
  let items := itemsOf arguments
  ensure (1 ≤ items.length ∧ items.length ≤ maxItems) "bundle must declare 1-16 inputs"
  let names ← items.foldlM checkItem []
  ensure ((items.map (fun item => sizeOf (field item "size"))).sum ≤ maxTotalBytes) "bundle exceeds total size bound"
  let primary := field acceptance "primary_item"
  ensure ("acceptance" ∈ keys → textOf primary ∈ names) "bundle acceptance primary_item must name a declared item"
  ensure ("acceptance" ∈ keys →
      ((items.find? (fun item => (field item "name").pyEq primary)).any
        (fun item => (field item "sha256").truthy)) = true)
    "bundle acceptance primary item requires an exact sha256"

def identityOf (item : Value) : Value :=
  .obj (["name", "reference", "sha256", "size"].map (fun k => (k, field item k)))

def acceptanceOf (v : Value) : Dict := if hasField v "acceptance" then [("acceptance", field v "acceptance")] else []

def manifestOf (arguments : Value) : Value :=
  .obj ([("producer", field arguments "producer"), ("items", .arr ((itemsOf arguments).map identityOf))] ++
    acceptanceOf arguments)

/-- `manifest`. -/
def manifest (arguments : Value) : Except String Value := do
  shape arguments
  return manifestOf arguments

/-- `dict(item, content_base64=None)`. -/
def withoutContent : Value → Value
  | .obj d => .obj (Dict.put d "content_base64" .null)
  | v => v

/-- What iterating a value gives. -/
def iterated : Value → Except String (List Value)
  | .arr items => .ok items
  | .str s => .ok (s.toList.map (fun c => .str (String.singleton c)))
  | .obj d => .ok (d.map (fun f => .str f.1))
  | _ => .error "object is not iterable"

/-- `identity_arguments`. -/
def identityArguments (identity : Value) : Except String Value :=
  match identity with
  | .obj d => do
    let items ← iterated ((Dict.find d "items").getD (.arr []))
    return .obj ([("producer", Dict.get d "producer"), ("items", .arr (items.map withoutContent))] ++
      acceptanceOf identity)
  | _ => .error "review input identity must be an object"

/-- What the loop of `decode` has so far. -/
structure Decoded where
  total : Nat
  items : List Value
  files : Entries String String

def missing (item : Value) : Dict :=
  [("name", field item "name"), ("reference", field item "reference"), ("sha256", .null), ("size", .null)]

def Decoded.failing (s : Decoded) (observed : Dict) (error : String) : Decoded :=
  { s with items := s.items ++ [.obj (observed ++ [("error", .str error)])] }

/-- Bytes of a size that is allowed. -/
def observeBytes (host : Host) (s : Decoded) (item : Value) (raw : ByteArray) : Decoded :=
  let observed : Dict := [("name", field item "name"), ("reference", field item "reference"),
    ("sha256", .str (host.sha256 raw)), ("size", .int raw.size)]
  match String.fromUTF8? raw with
  | none => s.failing observed (host.undecodable raw)
  | some text =>
    if '\r' ∈ text.toList ∨ '\x00' ∈ text.toList then
      s.failing observed "review inputs require UTF-8 text without CR or NUL"
    else { s with
      items := s.items ++ [.obj observed]
      files := Entries.set s.files (inputPrefix ++ textOf (field item "name")) text }

def observe (host : Host) (s : Decoded) (item : Value) : Decoded :=
  match field item "content_base64" with
  | .str content =>
    match host.b64decode content with
    | .error exc => s.failing (missing item) exc
    | .ok raw =>
      let s := { s with total := s.total + raw.size }
      if ¬(0 < raw.size ∧ raw.size ≤ maxItemBytes) ∨ s.total > maxTotalBytes then
        s.failing (missing item) "decoded input exceeds size bound"
      else observeBytes host s item raw
  | _ => s.failing (missing item) "required bundle input is missing"

/-- `decode`. -/
def decode (host : Host) (arguments : Value) : Except String (Value × Entries String String) := do
  let _ ← manifest arguments
  let s := (itemsOf arguments).foldl (observe host) ⟨0, [], []⟩
  return (.obj ([("producer", field arguments "producer"), ("items", .arr s.items)] ++ acceptanceOf arguments), s.files)

/-- `require_identity`. -/
def requireIdentity (actual arguments : Value) : Except String Value := do
  let expected ← manifest arguments
  ensure (actual.pyEq expected = true) "required review input bytes differ or are unavailable"
  return actual

/-- An item's decoded bytes are those it declares, and a text that is read unchanged. -/
structure Sound (host : Host) (item : Value) (raw : ByteArray) : Prop where
  content : ∃ content, field item "content_base64" = .str content ∧ host.b64decode content = .ok raw
  size : field item "size" = .int raw.size
  sha256 : field item "sha256" = .str (host.sha256 raw)
  bounded : 0 < raw.size ∧ raw.size ≤ maxItemBytes
  text : ∃ text, String.fromUTF8? raw = some text ∧ '\r' ∉ text.toList ∧ '\x00' ∉ text.toList

variable {host : Host} {a m v item producer : Value} {items : List Value} {names names' keys : List String}
  {raw : ByteArray}
  {s : Decoded}

/-- An item of a retained identity, as it is rebuilt. -/
def rebuilt (item : Value) : Value := withoutContent (identityOf item)

theorem rebuilt_eq (item : Value) : rebuilt item =
    .obj [("name", field item "name"), ("reference", field item "reference"),
    ("sha256", field item "sha256"), ("size", field item "size"), ("content_base64", .null)] := by
  simp [rebuilt, withoutContent, identityOf, Dict.put]

theorem field_rebuilt {k : String} (hk : k ∈ ["name", "reference", "sha256", "size"]) :
    field (rebuilt item) k = field item k := by
  rw [rebuilt_eq]
  simp only [List.mem_cons, List.not_mem_nil, or_false] at hk
  rcases hk with rfl | rfl | rfl | rfl <;> simp [field, Dict.get, Dict.find]

theorem identityOf_rebuilt (item : Value) : identityOf (rebuilt item) = identityOf item :=
  congrArg Value.obj (List.map_congr_left (fun _ hk => by rw [field_rebuilt hk]))

/-- What the loop accepts it accepts without the contents. -/
theorem checkItem_rebuilt (h : checkItem names item = .ok names') : checkItem names (rebuilt item) = .ok names' := by
  simp only [checkItem, bind_ok, ensure_ok, pure_ok] at h ⊢
  obtain ⟨_, -, _, hnamed, _, hsha, _, hsize, _, -, rfl⟩ := h
  have hkeys : dictWith itemKeys (rebuilt item) = true := by
    rw [rebuilt_eq]
    simp [dictWith, itemKeys, Dict.has, Dict.find]
  have hcontent : field (rebuilt item) "content_base64" = .null := by
    rw [rebuilt_eq]
    rfl
  have hname : field (rebuilt item) "name" = field item "name" := field_rebuilt (by decide)
  have hreference : field (rebuilt item) "reference" = field item "reference" := field_rebuilt (by decide)
  refine ⟨(), hkeys, (), ?_, (), ?_, (), ?_, (), ?_, ?_⟩
  · rw [namedOnce, hname, hreference]
    exact hnamed
  · rw [field_rebuilt (by decide)]
    exact hsha
  · rw [field_rebuilt (by decide)]
    exact hsize
  · rw [hcontent]
    rfl
  · rw [hname]

theorem checkItems_rebuilt (h : items.foldlM checkItem names = .ok names') :
    (items.map rebuilt).foldlM checkItem names = .ok names' := by
  induction items generalizing names with
  | nil => exact h
  | cons item items ih =>
    rw [List.foldlM_cons, bind_ok] at h
    obtain ⟨mid, hfirst, hrest⟩ := h
    rw [List.map_cons, List.foldlM_cons, bind_ok]
    exact ⟨mid, checkItem_rebuilt hfirst, ih hrest⟩

/-- A dictionary with this producer and these items, and the acceptance of `a`. -/
def madeLike (a producer : Value) (items : List Value) : Value :=
  .obj ([("producer", producer), ("items", .arr items)] ++ acceptanceOf a)

theorem acceptanceOf_cases (a : Value) : (hasField a "acceptance" = true ∧
    acceptanceOf a = [("acceptance", field a "acceptance")]) ∨
    (hasField a "acceptance" = false ∧ acceptanceOf a = []) := by
  unfold acceptanceOf
  cases hasField a "acceptance" <;> simp

theorem made_has : hasField (madeLike a producer items) "acceptance" = hasField a "acceptance" := by
  rw [madeLike]
  rcases acceptanceOf_cases a with ⟨hhas, hacc⟩ | ⟨hhas, hacc⟩ <;> rw [hhas, hacc] <;> rfl

theorem made_acceptance : acceptanceOf (madeLike a producer items) = acceptanceOf a := by
  rw [acceptanceOf, made_has]
  rcases acceptanceOf_cases a with ⟨hhas, hacc⟩ | ⟨hhas, hacc⟩
  · rw [hhas, madeLike, hacc]
    rfl
  · rw [hhas, hacc]
    rfl

/-- The arguments that are rebuilt from an identity. -/
def rebuiltArguments (a : Value) : Value := madeLike a (field a "producer") ((itemsOf a).map rebuilt)

theorem identityArguments_manifest (a : Value) : identityArguments (manifestOf a) = .ok (rebuiltArguments a) := by
  have hacc : acceptanceOf (manifestOf a) = acceptanceOf a := made_acceptance
  have hidentity : identityArguments (manifestOf a) = .ok (.obj ([("producer", field a "producer"),
      ("items", .arr (((itemsOf a).map identityOf).map withoutContent))] ++ acceptanceOf (manifestOf a))) := rfl
  rw [hidentity, hacc, List.map_map]
  rfl

theorem made_field_acceptance : field (madeLike a producer items) "acceptance" = field a "acceptance" := by
  rw [madeLike]
  rcases acceptanceOf_cases a with ⟨hhas, hacc⟩ | ⟨hhas, hacc⟩ <;> rw [hacc]
  · rfl
  · cases a with
    | obj d =>
      have hnone : Dict.find d "acceptance" = none := by simpa [hasField, Dict.has] using hhas
      rw [field, field, Dict.get, Dict.get, hnone]
      rfl
    | _ => rfl

theorem keys_made (h : dictWith (bundleKeys a) a = true) :
    bundleKeys (madeLike a producer items) = bundleKeys a ∧
    dictWith (bundleKeys a) (madeLike a producer items) = true := by
  unfold bundleKeys at h ⊢
  rcases acceptanceOf_cases a with ⟨hhas, hacc⟩ | ⟨hhas, hacc⟩
  · have hthree : dictWith ["producer", "items", "acceptance"] a = true := by
      split at h
      · next hthree => exact hthree
      · cases a with
        | obj d =>
          obtain ⟨f, hf, hname⟩ := Dict.has_iff.mp hhas
          simp only [dictWith, Bool.and_eq_true, List.all_eq_true] at h
          have hin := h.1 f hf
          rw [hname] at hin
          exact absurd hin (by decide)
        | _ => exact absurd hhas Bool.false_ne_true
    have hmade : dictWith ["producer", "items", "acceptance"] (madeLike a producer items) = true := by
      rw [madeLike, hacc]
      rfl
    rw [if_pos hthree, if_pos hmade]
    exact ⟨rfl, hmade⟩
  · have hnot : ¬ dictWith ["producer", "items", "acceptance"] a = true := by
      intro hthree
      cases a with
      | obj d =>
        simp only [dictWith, Bool.and_eq_true, List.all_eq_true] at hthree
        have hin := hthree.2 "acceptance" (by decide)
        rw [hasField, hin] at hhas
        cases hhas
      | _ => exact absurd hthree Bool.false_ne_true
    have hmade : ¬ dictWith ["producer", "items", "acceptance"] (madeLike a producer items) = true := by
      rw [madeLike, hacc]
      exact Bool.false_ne_true
    rw [if_neg hnot, if_neg hmade, madeLike, hacc]
    exact ⟨rfl, rfl⟩

theorem shape_rebuilt (h : shape a = .ok ()) : shape (rebuiltArguments a) = .ok () := by
  simp only [shape, bind_ok, ensure_ok] at h ⊢
  obtain ⟨_, hkeys, _, hproducer, _, hacceptance, _, hcount, names, hnames, _, htotal, _, hprimary, hsha⟩ := h
  have hmade : bundleKeys (rebuiltArguments a) = bundleKeys a ∧ dictWith (bundleKeys a) (rebuiltArguments a) = true :=
    keys_made hkeys
  have hitems : itemsOf (rebuiltArguments a) = (itemsOf a).map rebuilt := rfl
  have hacc : field (rebuiltArguments a) "acceptance" = field a "acceptance" := made_field_acceptance
  have hsize : ((itemsOf a).map rebuilt).map (fun item => sizeOf (field item "size")) =
      (itemsOf a).map (fun item => sizeOf (field item "size")) := by
    rw [List.map_map]
    exact List.map_congr_left (fun item _ => congrArg sizeOf (field_rebuilt (by decide)))
  have hfind (primary : Value) : ((itemsOf a).map rebuilt).find? (fun item => (field item "name").pyEq primary) =
      ((itemsOf a).find? (fun item => (field item "name").pyEq primary)).map rebuilt := by
    rw [List.find?_map]
    congr 2
  rw [hmade.1, hitems, hacc, hsize, hfind]
  refine ⟨(), hmade.2, (), hproducer, (), hacceptance, (), ?_, names, checkItems_rebuilt hnames, (), htotal,
    (), hprimary, ?_⟩
  · rw [List.length_map]
    exact hcount
  · intro hin
    rw [Option.any_map]
    exact hsha hin

/-- An identity is rebuilt exactly. -/
theorem manifest_rebuilt (h : manifest a = .ok m) : ∃ b, identityArguments m = .ok b ∧ manifest b = .ok m := by
  rw [manifest, bind_ok] at h
  obtain ⟨_, hshape, hm⟩ := h
  cases pure_ok.mp hm
  refine ⟨rebuiltArguments a, identityArguments_manifest a, ?_⟩
  rw [manifest, bind_ok]
  refine ⟨(), shape_rebuilt hshape, pure_ok.mpr ?_⟩
  have hitems : ((itemsOf a).map rebuilt).map identityOf = (itemsOf a).map identityOf := by
    rw [List.map_map]
    exact List.map_congr_left (fun item _ => identityOf_rebuilt item)
  have hmanifest : manifestOf (rebuiltArguments a) = .obj ([("producer", field a "producer"),
      ("items", .arr (((itemsOf a).map rebuilt).map identityOf))] ++ acceptanceOf (rebuiltArguments a)) := rfl
  have hacc : acceptanceOf (rebuiltArguments a) = acceptanceOf a := made_acceptance
  rw [hmanifest, hitems, hacc]
  rfl

/-- What the loop leaves of an item that it accepts. -/
structure ItemOk (item : Value) : Prop where
  name : ∃ s, field item "name" = .str s
  reference : ∃ s, field item "reference" = .str s
  sha256 : ∃ s, field item "sha256" = .str s
  size : ∃ i : Int, field item "size" = .int i

theorem checkItem_ok (h : checkItem names item = .ok names') : ItemOk item ∧
    textOf (field item "name") ∉ names ∧ names' = names ++ [textOf (field item "name")] := by
  simp only [checkItem, bind_ok, ensure_ok, pure_ok] at h
  obtain ⟨_, -, _, hnamed, _, hsha, _, hsize, _, -, rfl⟩ := h
  rw [namedOnce] at hnamed
  split at hnamed
  · next name reference hname hreference =>
    refine ⟨⟨⟨name, hname⟩, ⟨reference, hreference⟩, ?_, ?_⟩, ?_, rfl⟩
    · cases h : field item "sha256" with
      | str s => exact ⟨s, rfl⟩
      | _ =>
        rw [h] at hsha
        cases hsha
    · cases h : field item "size" with
      | int i => exact ⟨i, rfl⟩
      | _ =>
        rw [h] at hsize
        cases hsize
    · simp only [Bool.and_eq_true, Bool.not_eq_true', List.contains_eq_mem, decide_eq_false_iff_not] at hnamed
      rw [hname]
      exact hnamed.1.1.2
  · cases hnamed

theorem checkItems_ok (h : items.foldlM checkItem names = .ok names') (hnames : names.Nodup) :
    (∀ item ∈ items, ItemOk item) ∧ (names ++ items.map (fun item => textOf (field item "name"))).Nodup := by
  induction items generalizing names with
  | nil => exact ⟨fun _ h => absurd h List.not_mem_nil, by simpa using hnames⟩
  | cons item items ih =>
    rw [List.foldlM_cons, bind_ok] at h
    obtain ⟨mid, hfirst, hrest⟩ := h
    obtain ⟨hitem, hnew, rfl⟩ := checkItem_ok hfirst
    obtain ⟨hitems, hnodup⟩ := ih hrest (List.nodup_append.mpr ⟨hnames, List.nodup_singleton _, fun x hx y hy heq =>
      hnew (List.mem_singleton.mp hy ▸ heq ▸ hx)⟩)
    refine ⟨List.forall_mem_cons.mpr ⟨hitem, hitems⟩, ?_⟩
    rwa [List.append_assoc, List.singleton_append] at hnodup

/-- An observation without an error equals the identity where hash and size do. -/
theorem observed_pyEq (hitem : ItemOk item) (sha size : Value) :
    (Value.obj [("name", field item "name"), ("reference", field item "reference"), ("sha256", sha),
      ("size", size)]).pyEq
      (identityOf item) = true ↔ sha.pyEq (field item "sha256") = true ∧ size.pyEq (field item "size") = true := by
  obtain ⟨name, hname⟩ := hitem.name
  obtain ⟨reference, hreference⟩ := hitem.reference
  simp [identityOf, Value.pyEq, Value.eqFields, hname, hreference]

theorem failing_pyEq (observed : Dict) (error : Value) :
    (Value.obj (observed ++ [("error", error)])).pyEq (identityOf item) = false := by
  rw [identityOf, Value.pyEq, Bool.and_eq_false_iff]
  left
  rw [Bool.eq_false_iff]
  intro h
  obtain ⟨w, hw, -⟩ := Value.eqFields_iff.mp h ("error", error) (List.mem_append_right _ (List.mem_singleton_self _))
  simp [Dict.find] at hw

theorem sound_unique {raw' : ByteArray} (h : Sound host item raw) (h' : Sound host item raw') : raw = raw' := by
  obtain ⟨content, hcontent, hraw⟩ := h.content
  obtain ⟨content', hcontent', hraw'⟩ := h'.content
  cases hcontent.symm.trans hcontent'
  exact Except.ok.inj (hraw.symm.trans hraw')

/-- The file of an item. -/
def fileOf (item : Value) (text : String) : String × String := (inputPrefix ++ textOf (field item "name"), text)

/-- What one item adds: its observation equals its identity exactly where its bytes are sound
and fit, and then the file holds them. -/
theorem observe_item (host : Host) (s : Decoded) (hitem : ItemOk item) :
    ∃ o, (observe host s item).items = s.items ++ [o] ∧
      (o.pyEq (identityOf item) = true ↔ ∃ raw, Sound host item raw ∧ s.total + raw.size ≤ maxTotalBytes) ∧
      ∀ raw, Sound host item raw → s.total + raw.size ≤ maxTotalBytes →
        (observe host s item).total = s.total + raw.size ∧
        ∃ text, String.fromUTF8? raw = some text ∧
          (observe host s item).files = Entries.set s.files (fileOf item text).1 (fileOf item text).2 := by
  have hfails (observed : Dict) (error : String) (hno : ¬∃ raw, Sound host item raw ∧
      s.total + raw.size ≤ maxTotalBytes) :
      (Value.obj (observed ++ [("error", .str error)])).pyEq (identityOf item) = true ↔
        ∃ raw, Sound host item raw ∧ s.total + raw.size ≤ maxTotalBytes :=
    iff_of_false (by rw [failing_pyEq]; exact Bool.false_ne_true) hno
  unfold observe
  cases hcontent : field item "content_base64" with
  | str content =>
    have hdecoded {raw : ByteArray} (h : Sound host item raw) : host.b64decode content = .ok raw := by
      obtain ⟨content', hcontent', hraw⟩ := h.content
      cases hcontent.symm.trans hcontent'
      exact hraw
    simp only
    cases hraw : host.b64decode content with
    | error exc =>
      have hno : ¬∃ raw, Sound host item raw ∧ s.total + raw.size ≤ maxTotalBytes := by
        rintro ⟨raw, h, -⟩
        cases hraw.symm.trans (hdecoded h)
      exact ⟨_, rfl, hfails _ _ hno, fun raw h hle => absurd ⟨raw, h, hle⟩ hno⟩
    | ok raw =>
      have hsame {raw' : ByteArray} (h : Sound host item raw') : raw' = raw :=
        Except.ok.inj ((hdecoded h).symm.trans hraw)
      simp only
      split
      · next hbound =>
        have hno : ¬∃ raw, Sound host item raw ∧ s.total + raw.size ≤ maxTotalBytes := by
          rintro ⟨raw', h, hle⟩
          cases hsame h
          exact hbound.elim (fun hb => hb h.bounded) (fun hb => Nat.not_le.mpr hb hle)
        exact ⟨_, rfl, hfails _ _ hno, fun raw h hle => absurd ⟨raw, h, hle⟩ hno⟩
      · next hbound =>
        rw [not_or, not_not, not_lt] at hbound
        unfold observeBytes
        simp only
        split
        · next hnone =>
          have hno : ¬∃ raw, Sound host item raw ∧ s.total + raw.size ≤ maxTotalBytes := by
            rintro ⟨raw', h, -⟩
            cases hsame h
            obtain ⟨text, htext, -⟩ := h.text
            cases hnone.symm.trans htext
          exact ⟨_, rfl, hfails _ _ hno, fun raw h hle => absurd ⟨raw, h, hle⟩ hno⟩
        · next text htext =>
          split
          · next hbad =>
            have hno : ¬∃ raw, Sound host item raw ∧ s.total + raw.size ≤ maxTotalBytes := by
              rintro ⟨raw', h, -⟩
              cases hsame h
              obtain ⟨text', htext', hreturn, hnul⟩ := h.text
              cases htext.symm.trans htext'
              exact hbad.elim hreturn hnul
            exact ⟨_, rfl, hfails _ _ hno, fun raw h hle => absurd ⟨raw, h, hle⟩ hno⟩
          · next hgood =>
            rw [not_or] at hgood
            refine ⟨_, rfl, ?_, ?_⟩
            · rw [observed_pyEq hitem, Value.text_pyEq]
              constructor
              · rintro ⟨hsha, hsize⟩
                obtain ⟨i, hi⟩ := hitem.size
                rw [hi, Value.pyEq, Value.whole?, beq_iff_eq, Option.some.injEq] at hsize
                rw [hsize] at hi
                exact ⟨raw, ⟨⟨content, hcontent, hraw⟩, hi, hsha, hbound.1, text, htext, hgood.1, hgood.2⟩, hbound.2⟩
              · rintro ⟨raw', h, -⟩
                cases hsame h
                refine ⟨h.sha256, ?_⟩
                rw [h.size, Value.pyEq, Value.whole?]
                exact beq_self_eq_true _
            · intro raw' h _
              cases hsame h
              exact ⟨rfl, text, htext, rfl⟩
  | _ =>
    have hno : ¬∃ raw, Sound host item raw ∧ s.total + raw.size ≤ maxTotalBytes := by
      rintro ⟨raw, h, -⟩
      obtain ⟨content, hcontent', -⟩ := h.content
      cases hcontent.symm.trans hcontent'
    exact ⟨_, rfl, hfails _ _ hno, fun raw h hle => absurd ⟨raw, h, hle⟩ hno⟩

/-- The bytes of all items, sound and together within the bound that is left. -/
def SoundItems (host : Host) (items : List Value) (used : Nat) (raws : List ByteArray) : Prop :=
  List.Forall₂ (Sound host) items raws ∧ used + (raws.map ByteArray.size).sum ≤ maxTotalBytes

theorem soundItems_cons {used : Nat} {raws : List ByteArray} : SoundItems host (item :: items) used (raw :: raws) ↔
    (Sound host item raw ∧ used + raw.size ≤ maxTotalBytes) ∧ SoundItems host items (used + raw.size) raws := by
  rw [SoundItems, SoundItems, List.forall₂_cons, List.map_cons, List.sum_cons]
  constructor
  · rintro ⟨⟨hsound, hrest⟩, hle⟩
    exact ⟨⟨hsound, by omega⟩, hrest, by omega⟩
  · rintro ⟨⟨hsound, -⟩, hrest, hle⟩
    exact ⟨⟨hsound, hrest⟩, by omega⟩

theorem observe_adds (host : Host) (s : Decoded) (hitems : ∀ item ∈ items, ItemOk item) :
    ∃ os, (items.foldl (observe host) s).items = s.items ++ os ∧ os.length = items.length := by
  induction items generalizing s with
  | nil => exact ⟨[], (List.append_nil _).symm, rfl⟩
  | cons item items ih =>
    rw [List.forall_mem_cons] at hitems
    obtain ⟨o, hadded, -, -⟩ := observe_item host s hitems.1
    obtain ⟨os, hrest, hlength⟩ := ih (observe host s item) hitems.2
    refine ⟨o :: os, ?_, congrArg Nat.succ hlength⟩
    rw [List.foldl_cons, hrest, hadded, List.append_assoc, List.singleton_append]

/-- The observations equal the identity exactly where the bytes of every item are sound. -/
theorem observe_items (host : Host) (s : Decoded) (hitems : ∀ item ∈ items, ItemOk item)
    (htotal : s.total ≤ maxTotalBytes) :
    ∃ os, (items.foldl (observe host) s).items = s.items ++ os ∧
      (Value.eqItems os (items.map identityOf) = true ↔ ∃ raws, SoundItems host items s.total raws) := by
  induction items generalizing s with
  | nil => exact ⟨[], (List.append_nil _).symm, iff_of_true (by rw [List.map_nil, Value.eqItems]) ⟨[], .nil, htotal⟩⟩
  | cons item items ih =>
    rw [List.forall_mem_cons] at hitems
    obtain ⟨o, hadded, hone, hsound⟩ := observe_item host s hitems.1
    by_cases hraw : ∃ raw, Sound host item raw ∧ s.total + raw.size ≤ maxTotalBytes
    · obtain ⟨raw, hraw, hle⟩ := hraw
      have hused := (hsound raw hraw hle).1
      obtain ⟨os, hrest, hall⟩ := ih (observe host s item) hitems.2 (hused ▸ hle)
      refine ⟨o :: os, ?_, ?_⟩
      · rw [List.foldl_cons, hrest, hadded, List.append_assoc, List.singleton_append]
      · rw [List.map_cons, Value.eqItems, Bool.and_eq_true, hall, hused, and_iff_right (hone.mpr ⟨raw, hraw, hle⟩)]
        constructor
        · rintro ⟨raws, hraws⟩
          exact ⟨raw :: raws, soundItems_cons.mpr ⟨⟨hraw, hle⟩, hraws⟩⟩
        · rintro ⟨raws, hraws⟩
          cases hraws.1 with
          | @cons _ raw' _ raws hraw' _ =>
            cases sound_unique hraw hraw'
            exact ⟨raws, (soundItems_cons.mp hraws).2⟩
    · obtain ⟨os, hrest, -⟩ := observe_adds host (observe host s item) hitems.2
      refine ⟨o :: os, ?_, iff_of_false ?_ ?_⟩
      · rw [List.foldl_cons, hrest, hadded, List.append_assoc, List.singleton_append]
      · rw [List.map_cons, Value.eqItems, Bool.and_eq_true]
        exact fun h => hraw (hone.mp h.1)
      · rintro ⟨raws, hraws⟩
        cases hraws.1 with
        | cons _ _ => exact hraw ⟨_, (soundItems_cons.mp hraws).1⟩

/-- The files of sound items, under their names and in their order. -/
theorem observe_files (host : Host) (s : Decoded) (hitems : ∀ item ∈ items, ItemOk item) {raws : List ByteArray}
    (hraws : SoundItems host items s.total raws)
    (hnew : (s.files.map Prod.fst ++ items.map (fun item => inputPrefix ++ textOf (field item "name"))).Nodup) :
    ∃ texts : List String, List.Forall₂ (fun raw text => String.fromUTF8? raw = some text) raws texts ∧
      (items.foldl (observe host) s).files = s.files ++ List.zipWith fileOf items texts := by
  induction items generalizing s raws with
  | nil =>
    cases hraws.1
    exact ⟨[], .nil, (List.append_nil _).symm⟩
  | cons item items ih =>
    cases hraws.1 with
    | @cons _ raw _ raws hraw hrest =>
      rw [List.forall_mem_cons] at hitems
      obtain ⟨o, -, -, hsound⟩ := observe_item host s hitems.1
      obtain ⟨⟨-, hle⟩, hraws⟩ := soundItems_cons.mp hraws
      obtain ⟨htotal, text, htext, hfiles⟩ := hsound raw hraw hle
      have hfresh : (fileOf item text).1 ∉ s.files.map Prod.fst := by
        intro hin
        rw [List.nodup_append] at hnew
        exact hnew.2.2 _ hin _ List.mem_cons_self rfl
      rw [Entries.set_new hfresh] at hfiles
      rw [← htotal] at hraws
      obtain ⟨texts, htexts, hall⟩ := ih (observe host s item) hitems.2 hraws (by
        rw [hfiles, List.map_append, List.append_assoc]
        exact hnew)
      refine ⟨text :: texts, .cons htext htexts, ?_⟩
      rw [List.foldl_cons, hall, hfiles, List.append_assoc]
      rfl

theorem shape_items (h : shape a = .ok ()) : (∀ item ∈ itemsOf a, ItemOk item) ∧
    ((itemsOf a).map (fun item => textOf (field item "name"))).Nodup := by
  simp only [shape, bind_ok, ensure_ok] at h
  obtain ⟨_, -, _, -, _, -, _, -, names, hnames, -⟩ := h
  exact checkItems_ok hnames List.nodup_nil

theorem field_plain (h : a.Plain) (name : String) : (field a name).Plain := by
  cases a with
  | obj d => exact Value.plain_get h name
  | _ => trivial

/-- Two dictionaries made alike are equal where their items are. -/
theorem made_pyEq (h : a.Plain) (items others : List Value) :
    (madeLike a (field a "producer") items).pyEq (madeLike a (field a "producer") others) = true ↔
      Value.eqItems items others = true := by
  have hproducer := Value.pyEq_refl _ (field_plain h "producer")
  have hacceptance := Value.pyEq_refl _ (field_plain h "acceptance")
  rw [madeLike, madeLike]
  rcases acceptanceOf_cases a with ⟨-, hacc⟩ | ⟨-, hacc⟩ <;>
    simp [hacc, Value.pyEq, Value.eqFields, hproducer, hacceptance]

theorem toByteArray_of_fromUTF8 {text : String} (h : String.fromUTF8? raw = some text) : text.toByteArray = raw := by
  unfold String.fromUTF8? at h
  split at h
  · cases h
    rfl
  · cases h

/-- An identity is rebuilt exactly; the decoded inputs are admitted exactly where the bytes of
every item are those it declares; and then the texts the reviewer reads are those bytes. -/
theorem review_inputs_exact (host : Host) (a m : Value) (hplain : a.Plain) (h : manifest a = .ok m) :
    (∃ b, identityArguments m = .ok b ∧ manifest b = .ok m) ∧
    ∃ actual files, decode host a = .ok (actual, files) ∧
      (requireIdentity actual a = .ok actual ↔ ∃ raws, SoundItems host (itemsOf a) 0 raws) ∧
      ∀ raws, SoundItems host (itemsOf a) 0 raws → ∃ texts : List String,
        List.Forall₂ (fun raw text => text.toByteArray = raw) raws texts ∧
          files = List.zipWith fileOf (itemsOf a) texts := by
  refine ⟨manifest_rebuilt h, ?_⟩
  have hm := h
  rw [manifest, bind_ok] at h
  obtain ⟨_, hshape, hmade⟩ := h
  cases pure_ok.mp hmade
  obtain ⟨hitems, hnames⟩ := shape_items hshape
  obtain ⟨os, hos, hequal⟩ := observe_items host ⟨0, [], []⟩ hitems (Nat.zero_le _)
  refine ⟨_, _, bind_ok.mpr ⟨_, hm, rfl⟩, ?_, fun raws hraws => ?_⟩
  · rw [← hequal, hos, List.nil_append, ← made_pyEq hplain, requireIdentity]
    simp only [bind_ok, hm, Except.ok.injEq, ensure_ok, pure_ok, exists_eq_left', and_true, exists_const]
    rfl
  · have hfiles : (([] : Entries String String).map Prod.fst ++
        (itemsOf a).map (fun item => inputPrefix ++ textOf (field item "name"))).Nodup := by
      have hprefix : Function.Injective (fun name : String => inputPrefix ++ name) := by
        intro name other heq
        have hlist := congrArg String.toList heq
        simp only [String.toList_append, List.append_cancel_left_eq] at hlist
        exact String.toList_inj.mp hlist
      have hmapped := hnames.map hprefix
      rw [List.map_map] at hmapped
      rw [List.map_nil, List.nil_append]
      exact hmapped
    obtain ⟨texts, htexts, hall⟩ := observe_files host ⟨0, [], []⟩ hitems hraws hfiles
    exact ⟨texts, htexts.imp (fun _ _ => toByteArray_of_fromUTF8), hall⟩

namespace Sample

/-- The texts below, in base64 and under their digests. -/
def texts : List (String × String × String) :=
  [("hi", "aGk=", "8f434346648f6b96df89dda901c5176b10a6d83961dd3c1ac88b59b2dc327aa4"),
    ("ok", "b2s=", "2689367b205c16ce32ed4200942b8b8b1e262dfc70d9bc9fbc77c49699a4f1df")]

def library : Host where
  b64decode s := orElse ((texts.find? (fun t => t.2.1 == s)).map (fun t => t.1.toByteArray))
    "Only base64 data is allowed"
  sha256 raw := ((texts.find? (fun t => decide (t.1.toByteArray.data = raw.data))).map (fun t => t.2.2)).getD ""
  undecodable _ := "invalid start byte"

def itemOf (name : String) (t : String × String × String) : Value :=
  .obj [("name", .str name), ("reference", .str ("artifact:" ++ name)), ("sha256", .str t.2.2), ("size", .int 2),
    ("content_base64", .str t.2.1)]

/-- Two inputs, the second accepted. -/
def arguments : Value :=
  .obj [("producer", .obj [("project_id", .str "p"), ("attempt_id", .str "a"), ("artifact", .str "x")]),
    ("items", .arr (List.zipWith itemOf ["brief.md", "notes.md"] texts)),
    ("acceptance", .obj [("receipt_id", .str "r"), ("primary_item", .str "notes.md")])]

theorem arguments_accepted : manifest arguments = .ok (manifestOf arguments) := by
  have hshape : shape arguments = .ok () := by rfl
  rw [manifest, hshape]
  rfl

theorem arguments_plain : arguments.Plain := by
  simp [arguments, texts, itemOf, Value.Plain, Value.PlainFields, Value.PlainItems]

theorem arguments_sound : SoundItems library (itemsOf arguments) 0 ["hi".toByteArray, "ok".toByteArray] := by
  have hbrief : Sound library (itemOf "brief.md" texts[0]) "hi".toByteArray :=
    ⟨⟨"aGk=", rfl, rfl⟩, rfl, rfl, by decide, "hi", rfl, by decide, by decide⟩
  have hnotes : Sound library (itemOf "notes.md" texts[1]) "ok".toByteArray :=
    ⟨⟨"b2s=", rfl, rfl⟩, rfl, rfl, by decide, "ok", rfl, by decide, by decide⟩
  exact ⟨.cons hbrief (.cons hnotes .nil), by decide⟩

end Sample

theorem review_inputs_exact_brief :
    (∃ b, identityArguments (manifestOf Sample.arguments) = .ok b ∧ manifest b = .ok (manifestOf Sample.arguments)) ∧
    ∃ actual files, decode Sample.library Sample.arguments = .ok (actual, files) ∧
      requireIdentity actual Sample.arguments = .ok actual ∧
      ∃ texts : List String, List.Forall₂ (fun raw text => text.toByteArray = raw) ["hi".toByteArray,
        "ok".toByteArray] texts ∧
        files = List.zipWith fileOf (itemsOf Sample.arguments) texts := by
  obtain ⟨hrebuilt, actual, files, hdecode, hiff, hread⟩ :=
    review_inputs_exact Sample.library Sample.arguments (manifestOf Sample.arguments) Sample.arguments_plain
      Sample.arguments_accepted
  exact ⟨hrebuilt, actual, files, hdecode, hiff.mpr ⟨_, Sample.arguments_sound⟩, hread _ Sample.arguments_sound⟩

end AItelier.Review
