import Mathlib.Data.List.Nodup
import AItelier.Git.Index

namespace AItelier.Git

open AItelier.Lib AItelier.Lib.Bytes

section Flags

variable {e : IndexEntry} {x : Bool}

theorem flagsOf_stage (h : e.stage ≤ 3) : flagsOf e x >>> 12 &&& 3 = e.stage := by
  have hlow : min e.path.length 0xFFF >>> 12 = 0 := by
    rw [Nat.shiftRight_eq_div_pow]
    omega
  rw [flagsOf, Nat.shiftRight_or_distrib, Nat.shiftRight_or_distrib, Nat.shiftRight_or_distrib, hlow]
  generalize e.stage = n at h
  generalize e.assumeValid = b
  revert n b x
  decide

theorem flagsOf_high (i : Nat) (hi : 12 ≤ i) :
    (flagsOf e x).testBit i =
      ((e.stage <<< 12 ||| (if e.assumeValid then 0x8000 else 0) ||| (if x then 0x4000 else 0)).testBit i) := by
  have hlow : (min e.path.length 0xFFF).testBit i = false := by
    apply Nat.testBit_lt_two_pow
    calc min e.path.length 0xFFF < 2 ^ 12 := by omega
      _ ≤ 2 ^ i := Nat.pow_le_pow_right (by omega) hi
  simp only [flagsOf, Nat.testBit_or, hlow, Bool.false_or]

theorem flagsOf_assume (h : e.stage ≤ 3) : (flagsOf e x).testBit 15 = e.assumeValid := by
  rw [flagsOf_high 15 (by omega)]
  generalize e.stage = n at h
  generalize e.assumeValid = b
  revert n b x
  decide

theorem flagsOf_extended (h : e.stage ≤ 3) : (flagsOf e x).testBit 14 = x := by
  rw [flagsOf_high 14 (by omega)]
  generalize e.stage = n at h
  generalize e.assumeValid = b
  revert n b x
  decide

theorem flagsOf_lt (h : e.stage ≤ 3) : flagsOf e x < 256 ^ 2 := by
  have hhigh : e.stage <<< 12 ||| ((if e.assumeValid then 0x8000 else 0) ||| (if x then 0x4000 else 0)) < 2 ^ 16 := by
    generalize e.stage = n at h
    generalize e.assumeValid = b
    revert n b x
    decide
  have hlow : min e.path.length 0xFFF < 2 ^ 16 := by omega
  rw [flagsOf, Nat.or_assoc, Nat.or_assoc]
  exact Nat.or_lt_two_pow hlow hhigh

theorem extOf_lt (e : IndexEntry) : extOf e < 256 ^ 2 := by
  unfold extOf
  cases e.skipWorktree <;> cases e.intentToAdd <;> decide

theorem extOf_skip (e : IndexEntry) : (extOf e).testBit 14 = e.skipWorktree := by
  unfold extOf
  cases e.skipWorktree <;> cases e.intentToAdd <;> decide

theorem extOf_intent (e : IndexEntry) : (extOf e).testBit 13 = e.intentToAdd := by
  unfold extOf
  cases e.skipWorktree <;> cases e.intentToAdd <;> decide

theorem extOf_ne_zero (e : IndexEntry) : extOf e ≠ 0 ↔ e.skipWorktree = true ∨ e.intentToAdd = true := by
  unfold extOf
  cases e.skipWorktree <;> cases e.intentToAdd <;> decide

end Flags

section Reads

variable {data bs rest prev : Bytes} {pos k n : Nat}

theorem unpack_at (h : data.drop pos = pack k n ++ rest) (hn : n < 256 ^ k) :
    unpack k (slice data pos (pos + k)) = .ok n := by
  rw [slice_at h (length_pack k n), unpack, if_pos (length_pack k n), value_pack_of_lt hn]

theorem unpackWords_at {ns : List Nat} (h : data.drop pos = (ns.map (pack 4)).flatten ++ rest)
    (hns : ∀ n ∈ ns, n < 2 ^ 32) (hk : ns.length = k) : unpackWords k (slice data pos (pos + 4 * k)) = .ok ns := by
  subst hk
  rw [slice_at h (length_packs ns), unpackWords, if_pos (length_packs ns), words_pack ns hns]

theorem indexNul_at (h : data.drop pos = bs ++ 0 :: rest) (hbs : 0 ∉ bs) :
    indexNul data pos = .ok (pos + bs.length) := by
  rw [indexNul, h, nul_at hbs, if_pos]
  rw [List.length_append, List.length_cons]
  omega

theorem lt_padded (n : Nat) : n < padded n := by
  unfold padded
  omega

theorem zeros_padded (n : Nat) : ∃ k, List.replicate (padded n - n) (0 : Byte) = 0 :: List.replicate k 0 := by
  have hlt := lt_padded n
  refine ⟨padded n - n - 1, ?_⟩
  rw [← List.replicate_succ]
  congr 1
  omega

theorem stripped_shared {shared : Nat} (h : shared ≤ prev.length) :
    stripped prev (prev.length - shared) = prev.take shared := by
  rw [stripped, if_pos (Nat.sub_le _ _)]
  congr 1
  omega

end Reads

section Entries

variable {version pos : Nat} {data prev rest : Bytes} {s : Stored}

theorem Stored.length_shaBytes (h : s.entry.Formed) :
    s.shaBytes.length = 20 ∧ hex s.shaBytes = s.entry.sha := by
  obtain ⟨bs, hread, hlen, hspell⟩ := fromHex_digits 20 s.entry.sha h.lower h.sha
  rw [Stored.shaBytes, hread]
  exact ⟨hlen, hspell⟩

/-- The extended flags as they are written. -/
def Stored.extPart (s : Stored) : Bytes := if s.extended then pack 2 (extOf s.entry) else []

theorem Stored.length_head (h : s.entry.Formed) : s.head.length = 62 + s.extPart.length := by
  have hsha := (length_shaBytes h).1
  rw [head, List.length_append, length_packs, List.length_append, hsha, List.length_append, length_pack, extPart]
  have hfields : (statFields s.entry).length = 10 := rfl
  omega

theorem parseExt_at (hs : s.Formed version prev) (h : data.drop pos = s.extPart ++ rest) :
    parseExt data version (flagsOf s.entry s.extended) pos = .ok (extOf s.entry, pos + s.extPart.length) := by
  rw [parseExt, flagsOf_extended hs.entry.stage]
  rw [Stored.extPart] at h ⊢
  cases hx : s.extended with
  | true =>
    have hversion := hs.extended hx
    rw [hx, if_pos rfl] at h
    rw [if_pos rfl, if_pos rfl, ensure, if_pos (by omega), ok_bind, unpack_at h (extOf_lt _), ok_bind, length_pack]
  | false =>
    have hzero : extOf s.entry = 0 := by
      by_contra hne
      have hset := hs.flagged ((extOf_ne_zero s.entry).mp hne)
      rw [hx] at hset
      exact Bool.false_ne_true hset
    rw [if_neg Bool.false_ne_true, if_neg Bool.false_ne_true, hzero]
    rfl

/-- A name is read whole, and the cursor then stands after the block. -/
theorem parseName_at {start : Nat} (hs : s.Formed version prev) (hstart : pos = start + s.head.length)
    (h : data.drop pos = s.name version prev ++ rest) :
    parseName data version start pos prev = .ok (s.entry.path, start + (s.block version prev).length) := by
  rw [parseName, Stored.block, List.length_append]
  rw [Stored.name] at h ⊢
  by_cases hv : version = 4
  · obtain ⟨hle, hshare⟩ := hs.shared hv
    rw [if_pos hv] at h
    rw [if_pos hv, if_pos hv]
    rw [List.append_assoc] at h
    have hplain : 0 ∉ s.entry.path.drop s.shared := fun hin => hs.entry.plain (List.mem_of_mem_drop hin)
    have hdrop := drop_past h rfl
    rw [List.append_assoc, List.singleton_append] at hdrop
    rw [varint_at h, orElse, ok_bind]
    dsimp only
    rw [indexNul_at hdrop hplain, ok_bind, slice_at hdrop rfl, stripped_shared hle,
      hshare, List.take_append_drop, hstart, List.length_append, List.length_append, List.length_singleton]
    congr 2
    omega
  · obtain ⟨k, hzeros⟩ := zeros_padded (s.head.length + s.entry.path.length)
    have hlong := lt_padded (s.head.length + s.entry.path.length)
    have hgap : pos - start = s.head.length := by omega
    rw [if_neg hv] at h
    rw [if_neg hv, if_neg hv, List.length_append, List.length_replicate]
    rw [hzeros, List.append_assoc, List.cons_append] at h
    rw [indexNul_at h hs.entry.plain, ok_bind, slice_at h rfl, hgap]
    dsimp only
    congr 2
    omega

theorem entryOf_stored (hs : s.Formed version prev) :
    entryOf s.entry.path s.entry.sha (flagsOf s.entry s.extended) (extOf s.entry) (statFields s.entry) =
      .ok s.entry := by
  have hmode := hs.entry.mode
  rw [statFields, entryOf, ensure, if_pos hmode, ok_bind, flagsOf_stage hs.entry.stage,
    flagsOf_assume hs.entry.stage, extOf_skip, extOf_intent]

theorem parseEntry_at (hs : s.Formed version prev) (h : data.drop pos = s.block version prev ++ rest) :
    parseEntry data version pos prev = .ok (s.entry, pos + (s.block version prev).length) := by
  obtain ⟨hshaLen, hshaHex⟩ := s.length_shaBytes hs.entry
  have hlen := s.length_head hs.entry
  have hfields : (statFields s.entry).length = 10 := rfl
  have hname : data.drop (pos + s.head.length) = s.name version prev ++ rest := by
    rw [Stored.block, List.append_assoc] at h
    exact drop_past h rfl
  rw [Stored.block, List.append_assoc, Stored.head, List.append_assoc, List.append_assoc, List.append_assoc] at h
  have hstat : unpackWords 10 (slice data pos (pos + 40)) = .ok (statFields s.entry) :=
    unpackWords_at (k := 10) h hs.entry.fields hfields
  have hsha : data.drop (pos + 40) = s.shaBytes ++ (pack 2 (flagsOf s.entry s.extended) ++
      (s.extPart ++ (s.name version prev ++ rest))) :=
    drop_past (k := 40) h ((length_packs _).trans (congrArg (4 * ·) hfields))
  have hshaAt : slice data (pos + 40) (pos + 60) = s.shaBytes :=
    slice_at (k := 20) hsha hshaLen
  have hflags : data.drop (pos + 60) = pack 2 (flagsOf s.entry s.extended) ++
      (s.extPart ++ (s.name version prev ++ rest)) := drop_past (k := 20) hsha hshaLen
  have hflagsAt : unpack 2 (slice data (pos + 60) (pos + 62)) = .ok (flagsOf s.entry s.extended) :=
    unpack_at (k := 2) hflags (flagsOf_lt hs.entry.stage)
  have hext : data.drop (pos + 62) = s.extPart ++ (s.name version prev ++ rest) :=
    drop_past (k := 2) hflags (length_pack 2 _)
  have hafter : pos + 62 + s.extPart.length = pos + s.head.length := by omega
  rw [parseEntry, hstat, ok_bind, hshaAt, hshaHex, hflagsAt, ok_bind, parseExt_at hs hext, ok_bind, hafter]
  dsimp only
  rw [parseName_at hs rfl hname, ok_bind]
  dsimp only
  rw [entryOf_stored hs, ok_bind]

theorem parseEntries_at (l : List Stored) (hl : FormedFrom version prev l)
    (h : data.drop pos = blocksFrom version prev l ++ rest) :
    parseEntries data version l.length pos prev =
      .ok (l.map Stored.entry, pos + (blocksFrom version prev l).length) := by
  induction l generalizing pos prev with
  | nil => rfl
  | cons s l ih =>
    rw [blocksFrom, List.append_assoc] at h
    have htail := drop_past h rfl
    rw [List.length_cons, parseEntries, parseEntry_at hl.1 h, ok_bind]
    dsimp only
    rw [ih hl.2 htail, ok_bind, blocksFrom, List.length_append, Nat.add_assoc]
    rfl

end Entries

section Files

variable {host : Hashes} {data : Bytes}

theorem Extension.length_bytes (x : Extension) : x.bytes.length = 8 + x.body.length := by
  rw [bytes, List.length_append, List.length_append, x.sig_length, length_pack]
  omega

theorem skipExtensions_at (l : List Extension) {pos : Nat} {rest : Bytes}
    (h : data.drop pos = (l.map Extension.bytes).flatten ++ rest) :
    skipExtensions data (pos + (l.map Extension.bytes).flatten.length) pos = .ok () := by
  induction l generalizing pos with
  | nil =>
    rw [skipExtensions, if_neg]
    rw [List.map_nil, List.flatten_nil, List.length_nil]
    omega
  | cons x l ih =>
    rw [List.map_cons, List.flatten_cons, List.append_assoc] at h
    have hlen := x.length_bytes
    have hrest : data.drop (pos + (8 + x.body.length)) = (l.map Extension.bytes).flatten ++ rest := drop_past h hlen
    rw [Extension.bytes, List.append_assoc, List.append_assoc] at h
    have hsig : slice data pos (pos + 4) = x.sig := slice_at h x.sig_length
    have hsize : unpack 4 (slice data (pos + 4) (pos + 8)) = .ok x.body.length :=
      unpack_at (k := 4) (drop_past h x.sig_length) x.body_length
    rw [List.map_cons, List.flatten_cons, List.length_append, hlen]
    rw [skipExtensions, if_pos (by omega), hsize, ok_bind, hsig, ensure, if_pos x.optional, ok_bind,
      ← Nat.add_assoc pos]
    exact ih hrest

theorem IndexFile.body_start (f : IndexFile) (tail : Bytes) :
    f.body ++ tail = dirc ++ (pack 4 f.version ++ (pack 4 f.stored.length ++
      (blocksFrom f.version [] f.stored ++ ((f.extensions.map Extension.bytes).flatten ++ tail)))) := by
  rw [body, List.append_assoc, List.append_assoc, List.append_assoc, List.append_assoc]

theorem IndexFile.length_body (f : IndexFile) :
    f.body.length = 12 + (blocksFrom f.version [] f.stored).length +
      (f.extensions.map Extension.bytes).flatten.length := by
  have hdirc : dirc.length = 4 := rfl
  rw [body, List.length_append, List.length_append, List.length_append, List.length_append, length_pack, length_pack]
  omega

theorem IndexFile.version_lt (f : IndexFile) : f.version < 256 ^ 4 := by
  have hversion := f.supported
  omega

/-- Every file that is formed by the format is parsed to the entries it was written for. -/
theorem parse_file (f : IndexFile) :
    parseIndex host (f.bytes host) = .ok ⟨f.entries, f.version, hex (host.sha256 (f.bytes host))⟩ := by
  have hsum := host.sha1_length f.body
  have hlen : (f.bytes host).length = f.body.length + 20 := by rw [IndexFile.bytes, List.length_append, hsum]
  have hbody := f.length_body
  have hstart : (f.bytes host).drop 0 = _ := f.body_start (host.sha1 f.body)
  have hdirc : (f.bytes host).take 4 = dirc := by
    rw [IndexFile.bytes, f.body_start]
    exact List.take_left' rfl
  have hversion := drop_past (k := 4) hstart rfl
  have hversionAt : unpack 4 (slice (f.bytes host) 4 8) = .ok f.version :=
    unpack_at (k := 4) hversion f.version_lt
  have hcount : (f.bytes host).drop 8 = _ := drop_past (k := 4) hversion (length_pack 4 _)
  have hcountAt : unpack 4 (slice (f.bytes host) 8 12) = .ok f.stored.length :=
    unpack_at (k := 4) hcount f.count
  have hblocks : (f.bytes host).drop 12 = _ := drop_past (k := 4) hcount (length_pack 4 _)
  have hexts := drop_past hblocks rfl
  have hstop : (f.bytes host).length - 20 = f.body.length := by omega
  have hcheck : host.sha1 ((f.bytes host).take f.body.length) = (f.bytes host).drop f.body.length := by
    rw [IndexFile.bytes, List.take_left' rfl, List.drop_left' rfl]
  rw [parseIndex, ensure, if_pos, ok_bind, hstop]
  · dsimp only
    rw [ensure, if_pos hcheck, ok_bind, hversionAt, ok_bind, hcountAt, ok_bind, ensure, if_pos f.supported, ok_bind,
      parseEntries_at f.stored f.formed hblocks, ok_bind]
    dsimp only
    rw [hbody, skipExtensions_at f.extensions hexts, ok_bind]
    rfl
  · rintro (hshort | hsig)
    · omega
    · exact hsig hdirc

end Files

section Written

variable {host : Hashes} {e : IndexEntry} {es : List IndexEntry}

/-- How an entry is written: with extended flags only where one of them is set. -/
def stored (e : IndexEntry) : Stored := ⟨e, decide (extOf e ≠ 0), 0⟩

theorem serializeEntry_formed (h : e.Formed) {version : Nat} (hv : version ≠ 4) (prev : Bytes) :
    serializeEntry e = .ok ((stored e).block version prev) := by
  obtain ⟨bs, hread, -, -⟩ := fromHex_digits 20 e.sha h.lower h.sha
  have hsha : (stored e).shaBytes = bs := by
    rw [Stored.shaBytes, stored, hread]
    rfl
  have hfields : (statFields e).map (fun v => pack 4 (v % 2 ^ 32)) = (statFields e).map (pack 4) := by
    apply List.map_congr_left
    intro v hv
    rw [Nat.mod_eq_of_lt (h.fields v hv)]
  have hext : extBytes (extOf e) = .ok (stored e).extPart := by
    rw [extBytes, Stored.extPart]
    by_cases hzero : extOf e ≠ 0
    · rw [if_pos hzero, packed, if_pos (extOf_lt e), stored, decide_eq_true hzero]
      rfl
    · rw [if_neg hzero, stored, decide_eq_false hzero]
      rfl
  have hblock : ((statFields e).map (pack 4)).flatten ++ bs ++ pack 2 (flagsOf e (decide (extOf e ≠ 0))) ++
      (stored e).extPart ++ e.path = (stored e).head ++ (stored e).entry.path := by
    rw [Stored.head, hsha, List.append_assoc _ bs, List.append_assoc _ (bs ++ _), List.append_assoc bs]
    rfl
  rw [serializeEntry, hread, orElse, ok_bind, packed, if_pos (flagsOf_lt h.stage), ok_bind, hext, ok_bind, hfields]
  dsimp only
  rw [hblock, Stored.block, Stored.name, if_neg hv, List.append_assoc, List.length_append]

theorem serializeEntries_formed (h : ∀ e ∈ es, e.Formed) {version : Nat} (hv : version ≠ 4) (prev : Bytes) :
    ∃ blocks, es.mapM serializeEntry = .ok blocks ∧ blocks.flatten = blocksFrom version prev (es.map stored) := by
  induction es generalizing prev with
  | nil => exact ⟨[], rfl, rfl⟩
  | cons e es ih =>
    obtain ⟨he, hes⟩ := List.forall_mem_cons.mp h
    obtain ⟨blocks, hmap, hflat⟩ := ih hes e.path
    refine ⟨(stored e).block version prev :: blocks, ?_, ?_⟩
    · rw [List.mapM_cons, serializeEntry_formed he hv prev, ok_bind, hmap]
      rfl
    · rw [List.flatten_cons, hflat]
      rfl

/-- The version that the entries need. -/
def versionFor (es : List IndexEntry) : Nat := if es.any (fun e => e.skipWorktree || e.intentToAdd) then 3 else 2

theorem versionFor_ne (es : List IndexEntry) : versionFor es ≠ 4 := by
  unfold versionFor
  split <;> omega

theorem stored_formed {version : Nat} (hv : version ≠ 4) (prev : Bytes) (h : ∀ e ∈ es, e.Formed)
    (hext : ∀ e ∈ es, extOf e ≠ 0 → 3 ≤ version) : FormedFrom version prev (es.map stored) := by
  induction es generalizing prev with
  | nil => trivial
  | cons e es ih =>
    obtain ⟨he, hes⟩ := List.forall_mem_cons.mp h
    obtain ⟨hx, hxs⟩ := List.forall_mem_cons.mp hext
    refine ⟨⟨he, ?_, ?_, fun h4 => absurd h4 hv⟩, ih e.path hes hxs⟩
    · exact fun hset => decide_eq_true ((extOf_ne_zero e).mpr hset)
    · exact fun hset => hx (of_decide_eq_true hset)

theorem versionFor_ext : ∀ e ∈ es, extOf e ≠ 0 → 3 ≤ versionFor es := by
  intro e he hne
  have hany : es.any (fun e => e.skipWorktree || e.intentToAdd) = true := by
    rw [List.any_eq_true]
    exact ⟨e, he, by rw [Bool.or_eq_true]; exact (extOf_ne_zero e).mp hne⟩
  rw [versionFor, if_pos hany]

/-- The file that sorted entries are written as. -/
def written (es : List IndexEntry) (h : ∀ e ∈ es, e.Formed) (hsorted : es.Pairwise (fun a b => a.key < b.key))
    (hcount : es.length < 2 ^ 32) : IndexFile where
  version := versionFor es
  stored := es.map stored
  extensions := []
  supported := by
    unfold versionFor
    split
    · exact .inr (.inl rfl)
    · exact .inl rfl
  formed := stored_formed (versionFor_ne es) [] h versionFor_ext
  sorted := by
    rw [List.map_map]
    exact (List.map_id es).symm ▸ hsorted
  count := (List.length_map _).trans_lt hcount

def sortedEntries (es : List IndexEntry) : List IndexEntry := es.mergeSort (fun a b => decide (a.key ≤ b.key))

theorem sortedEntries_perm (es : List IndexEntry) : (sortedEntries es).Perm es := List.mergeSort_perm es _

theorem sortedEntries_sorted (h : (es.map IndexEntry.key).Nodup) :
    (sortedEntries es).Pairwise (fun a b => a.key < b.key) := by
  have hle : (sortedEntries es).Pairwise (fun a b => decide (a.key ≤ b.key) = true) := by
    apply List.pairwise_mergeSort
    · intro a b c hab hbc
      exact decide_eq_true (le_trans (of_decide_eq_true hab) (of_decide_eq_true hbc))
    · intro a b
      rw [Bool.or_eq_true, decide_eq_true_eq, decide_eq_true_eq]
      exact le_total a.key b.key
  have hne : (sortedEntries es).Pairwise (fun a b => a.key ≠ b.key) :=
    List.pairwise_map.mp (((sortedEntries_perm es).map IndexEntry.key).nodup_iff.mpr h)
  exact hle.imp₂ (fun a b hab hne => lt_of_le_of_ne (of_decide_eq_true hab) hne) hne

theorem serialize_sorted (hsorted : es.Pairwise (fun a b => a.key < b.key)) : sortedEntries es = es := by
  apply List.mergeSort_of_pairwise
  exact hsorted.imp (fun hab => decide_eq_true hab.le)

theorem serialize_written (h : ∀ e ∈ sortedEntries es, e.Formed)
    (hsorted : (sortedEntries es).Pairwise (fun a b => a.key < b.key)) (hcount : (sortedEntries es).length < 2 ^ 32) :
    serializeIndex host es = .ok ((written (sortedEntries es) h hsorted hcount).bytes host) := by
  obtain ⟨blocks, hmap, hflat⟩ := serializeEntries_formed h (versionFor_ne _) []
  have hpacked : packed 4 (sortedEntries es).length = .ok (pack 4 (sortedEntries es).length) := by
    rw [packed, if_pos]
    exact hcount
  rw [serializeIndex, ← sortedEntries]
  dsimp only
  rw [hpacked, ok_bind, hmap, ok_bind, hflat, ← versionFor]
  have hbody : (written (sortedEntries es) h hsorted hcount).body =
      dirc ++ pack 4 (versionFor (sortedEntries es)) ++ pack 4 (sortedEntries es).length ++
        blocksFrom (versionFor (sortedEntries es)) [] ((sortedEntries es).map stored) := by
    rw [IndexFile.body, written, List.map_nil, List.flatten_nil, List.append_nil, List.length_map,
      List.append_assoc, List.append_assoc]
  rw [IndexFile.bytes, hbody]

end Written

section RoundTrip

variable {host : Hashes} {es : List IndexEntry}

theorem serialize_parse (hdistinct : (es.map IndexEntry.key).Nodup) (h : ∀ e ∈ es, e.Formed)
    (hcount : es.length < 2 ^ 32) : ∃ data index, serializeIndex host es = .ok data ∧
      parseIndex host data = .ok index ∧ index.entries = sortedEntries es := by
  have hperm := sortedEntries_perm es
  have hformed : ∀ e ∈ sortedEntries es, e.Formed := fun e he => h e (hperm.mem_iff.mp he)
  have hfew : (sortedEntries es).length < 2 ^ 32 := hperm.length_eq ▸ hcount
  have hwritten := @serialize_written host es hformed (sortedEntries_sorted hdistinct) hfew
  refine ⟨_, _, hwritten, parse_file _, ?_⟩
  show ((sortedEntries es).map stored).map Stored.entry = sortedEntries es
  rw [List.map_map]
  exact List.map_id _

theorem formedFrom_entries {version : Nat} {prev : Bytes} {l : List Stored} (h : FormedFrom version prev l) :
    ∀ e ∈ l.map Stored.entry, e.Formed := by
  induction l generalizing prev with
  | nil => exact fun e he => absurd he List.not_mem_nil
  | cons s l ih => exact List.forall_mem_cons.mpr ⟨h.1.entry, ih h.2⟩

theorem keys_nodup (h : es.Pairwise (fun a b => a.key < b.key)) : (es.map IndexEntry.key).Nodup :=
  List.pairwise_map.mpr (h.imp (fun hab => hab.ne))

/-- The codec of the index: what is written is read back in Git's order, a formed file of any version
is read exactly, and what was read is kept when it is written again. -/
theorem index_round_trip (host : Hashes) :
    (∀ entries : List IndexEntry, (entries.map IndexEntry.key).Nodup → (∀ e ∈ entries, e.Formed) →
      entries.length < 2 ^ 32 → ∃ data index, serializeIndex host entries = .ok data ∧
        parseIndex host data = .ok index ∧ index.entries.Perm entries ∧
        index.entries.Pairwise (fun a b => a.key < b.key)) ∧
    ∀ f : IndexFile, ∃ index, parseIndex host (f.bytes host) = .ok index ∧ index.entries = f.entries ∧
      index.version = f.version ∧ ∃ data again, serializeIndex host index.entries = .ok data ∧
        parseIndex host data = .ok again ∧ again.entries = index.entries := by
  constructor
  · intro entries hdistinct h hcount
    obtain ⟨data, index, hwrite, hread, hentries⟩ := @serialize_parse host _ hdistinct h hcount
    refine ⟨data, index, hwrite, hread, ?_, ?_⟩
    · rw [hentries]
      exact sortedEntries_perm entries
    · rw [hentries]
      exact sortedEntries_sorted hdistinct
  · intro f
    refine ⟨_, parse_file f, rfl, rfl, ?_⟩
    have hcount : f.entries.length < 2 ^ 32 := (List.length_map _).trans_lt f.count
    obtain ⟨data, again, hwrite, hread, hentries⟩ :=
      @serialize_parse host _ (keys_nodup f.sorted) (formedFrom_entries f.formed) hcount
    exact ⟨data, again, hwrite, hread, hentries.trans (serialize_sorted f.sorted)⟩

/-- An entry of a file with a name of `n + 1` letters, at a sha of forty of the same digit. -/
def plainEntry (c : Char) (n : Nat) : IndexEntry where
  path := List.replicate (n + 1) 0x61
  mode := 0o100644
  sha := List.replicate 40 c

theorem plainEntry_fits {c : Char} (hc : (hexValue c).isSome) (n : Nat) : (plainEntry c n).Fits where
  path := List.cons_ne_nil _ _
  plain := fun hin => absurd (List.eq_of_mem_replicate hin) (by decide)
  digits := fun d hd => List.eq_of_mem_replicate hd ▸ hc
  sha := List.length_replicate
  stage := Nat.zero_le 3
  fields :=
    have hstat : ∀ v ∈ [0, 0, 0, 0, 0, 0, 0o100644, 0, 0, 0], v < 2 ^ 32 := by decide
    hstat
  mode :=
    have hfile : (0o100644 : Nat) &&& 0xF000 ≠ 0x4000 := by decide
    hfile

theorem plainEntry_key {c : Char} {m n : Nat} (h : (plainEntry c m).key = (plainEntry c n).key) : m = n := by
  have hpath : List.replicate (m + 1) (0x61 : Byte) = List.replicate (n + 1) 0x61 := congrArg (fun k => (ofLex k).1) h
  have hlen := congrArg List.length hpath
  rw [List.length_replicate, List.length_replicate] at hlen
  omega

/-- A sha in capitals comes back in lower case, and a list of `2 ^ 32` entries is not written at all. -/
theorem index_round_trip_bounds :
    (∃ entries : List IndexEntry, (entries.map IndexEntry.key).Nodup ∧ (∀ e ∈ entries, e.Fits) ∧
      ∀ host data index, serializeIndex host entries = .ok data → parseIndex host data = .ok index →
        ¬ index.entries.Perm entries) ∧
    ∃ entries : List IndexEntry, (entries.map IndexEntry.key).Nodup ∧ (∀ e ∈ entries, e.Formed) ∧
      ∀ host, serializeIndex host entries = .error .struct := by
  refine ⟨⟨[plainEntry 'A' 0], List.nodup_singleton _, ?_, ?_⟩,
    (List.range (2 ^ 32)).map (plainEntry 'a'), ?_, ?_, ?_⟩
  · exact List.forall_mem_singleton.mpr (plainEntry_fits (by decide) 0)
  · intro host data index hwrite hread hperm
    have hformed : (plainEntry 'a' 0).Formed :=
      ⟨plainEntry_fits (by decide) 0, fun c hc => List.eq_of_mem_replicate hc ▸ by decide⟩
    obtain ⟨data', index', hwrite', hread', hentries⟩ :=
      @serialize_parse host [plainEntry 'a' 0] (List.nodup_singleton _) (List.forall_mem_singleton.mpr hformed)
        (by decide)
    have hsame : serializeIndex host [plainEntry 'A' 0] = serializeIndex host [plainEntry 'a' 0] := by
      have hdigits : fromHex (plainEntry 'A' 0).sha = fromHex (plainEntry 'a' 0).sha := by decide
      have hentry : serializeEntry (plainEntry 'A' 0) = serializeEntry (plainEntry 'a' 0) := by
        rw [serializeEntry, serializeEntry, hdigits]
        rfl
      rw [serializeIndex, serializeIndex, List.mergeSort_singleton, List.mergeSort_singleton]
      simp only [List.mapM_cons, hentry]
      rfl
    obtain rfl : data = data' := Except.ok.inj (hwrite.symm.trans (hsame.trans hwrite'))
    obtain rfl : index = index' := Except.ok.inj (hread.symm.trans hread')
    have hin : plainEntry 'A' 0 ∈ index.entries := hperm.mem_iff.mpr (List.mem_singleton.mpr rfl)
    rw [hentries, (sortedEntries_perm _).mem_iff, List.mem_singleton] at hin
    have hsha : (plainEntry 'A' 0).sha = (plainEntry 'a' 0).sha := congrArg IndexEntry.sha hin
    exact absurd hsha (by decide)
  · rw [List.map_map]
    exact List.nodup_range.map (fun m n h => plainEntry_key h)
  · intro e he
    obtain ⟨n, -, rfl⟩ := List.mem_map.mp he
    exact ⟨plainEntry_fits (by decide) n, fun c hc => List.eq_of_mem_replicate hc ▸ by decide⟩
  · intro host
    have hlen : (sortedEntries ((List.range (2 ^ 32)).map (plainEntry 'a'))).length = 2 ^ 32 := by
      rw [(sortedEntries_perm _).length_eq, List.length_map, List.length_range]
    rw [serializeIndex, ← sortedEntries]
    dsimp only
    rw [packed, hlen, if_neg (by decide)]
    rfl

/-- The bytes of an index say which entries it has, and nothing of the order they were given in. -/
theorem serialize_iff_perm {es' : List IndexEntry} (hdistinct : (es.map IndexEntry.key).Nodup)
    (hdistinct' : (es'.map IndexEntry.key).Nodup)
    (h : ∀ e ∈ es, e.Formed) (h' : ∀ e ∈ es', e.Formed) (hcount : es.length < 2 ^ 32) (hcount' : es'.length < 2 ^ 32) :
    serializeIndex host es = serializeIndex host es' ↔ es.Perm es' := by
  constructor
  · intro hsame
    obtain ⟨data, index, hwrite, hread, hentries⟩ := @serialize_parse host _ hdistinct h hcount
    obtain ⟨data', index', hwrite', hread', hentries'⟩ := @serialize_parse host _ hdistinct' h' hcount'
    obtain rfl : data = data' := Except.ok.inj (hwrite.symm.trans (hsame.trans hwrite'))
    obtain rfl : index = index' := Except.ok.inj (hread.symm.trans hread')
    have hsorted : sortedEntries es = sortedEntries es' := hentries.symm.trans hentries'
    exact (sortedEntries_perm es).symm.trans (hsorted ▸ sortedEntries_perm es')
  · intro hperm
    have hsorted : sortedEntries es = sortedEntries es' := by
      refine List.Perm.eq_of_pairwise ?_ (sortedEntries_sorted hdistinct) (sortedEntries_sorted hdistinct') ?_
      · exact fun a b _ _ hab hba => absurd (hab.trans hba) (lt_irrefl _)
      · exact (sortedEntries_perm es).trans (hperm.trans (sortedEntries_perm es').symm)
    rw [serializeIndex, serializeIndex, ← sortedEntries, ← sortedEntries, hsorted]

/-- Two files, staged in either order. -/
theorem serialize_iff_perm_swapped :
    serializeIndex ⟨fun _ => List.replicate 20 0, id, fun _ => rfl⟩ [plainEntry 'a' 0, plainEntry 'a' 1] =
      serializeIndex ⟨fun _ => List.replicate 20 0, id, fun _ => rfl⟩ [plainEntry 'a' 1, plainEntry 'a' 0] ↔
    [plainEntry 'a' 0, plainEntry 'a' 1].Perm [plainEntry 'a' 1, plainEntry 'a' 0] := by
  have hne : (plainEntry 'a' 0).key ≠ (plainEntry 'a' 1).key := fun h => absurd (plainEntry_key h) (by decide)
  have hformed : ∀ n, (plainEntry 'a' n).Formed := fun n =>
    ⟨plainEntry_fits (by decide) n, fun c hc => List.eq_of_mem_replicate hc ▸ by decide⟩
  apply serialize_iff_perm
  · simpa using hne
  · simpa using hne.symm
  · simp [hformed]
  · simp [hformed]
  · decide
  · decide

end RoundTrip

end AItelier.Git
