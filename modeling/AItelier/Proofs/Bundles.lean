import AItelier.State.Bundles

namespace AItelier.State

open AItelier.Lib

variable {z : Zstd} {h : Sha256} {t t' u : List BundleRow}

variable {digest : String} {row : BundleRow} {data : Bytes} {base : String} {raw : Bytes}

/-- A row once found is found again however the table grows. -/
theorem storeEntry_append (hr : storeEntry t digest = some row) :
    storeEntry (t ++ u) digest = some row := by
  have he : lookup BundleRow.bundleSha256 t digest = some row := hr
  rw [storeEntry, lookup_append, he, Option.some_or]

theorem storeEntry_new (hn : storeEntry t row.bundleSha256 = none) :
    storeEntry (t ++ [row]) row.bundleSha256 = some row := by
  have he : lookup BundleRow.bundleSha256 t row.bundleSha256 = none := hn
  rw [storeEntry, lookup_append, he, Option.none_or, lookup_singleton, if_pos rfl]

theorem keyframeBytes_ok {entry : Option BundleRow} :
    keyframeBytes h entry digest = .ok data ↔
      ∃ k, entry = some k ∧ k.bundleSha256 = digest ∧ k.codec = .raw ∧ k.baseSha256 = none ∧
        (k.payload.length : Int) = k.rawSize ∧ h.hexdigest k.payload = digest ∧ k.payload = data := by
  simp only [keyframeBytes, bind_ok, orElse_ok, ensure_ok, pure_ok]
  constructor
  · rintro ⟨k, he, -, ⟨hk, hc, hb⟩, -, ⟨hl, hh⟩, hd⟩
    exact ⟨k, he, hk, hc, hb, hl, hh, hd⟩
  · rintro ⟨k, he, hk, hc, hb, hl, hh, hd⟩
    exact ⟨k, he, (), ⟨hk, hc, hb⟩, (), ⟨hl, hh⟩, hd⟩

theorem keyframeBytes_append
    (hk : keyframeBytes h (storeEntry t digest) digest = .ok data) :
    keyframeBytes h (storeEntry (t ++ u) digest) digest = .ok data := by
  obtain ⟨k, he, hrest⟩ := keyframeBytes_ok.mp hk
  exact keyframeBytes_ok.mpr ⟨k, storeEntry_append he, hrest⟩

/-- The two shapes of row that restore to bytes. -/
theorem restore_ok {entry : BundleRow} :
    restore z h t entry digest = .ok data ↔
      (entry.codec = .raw ∧ entry.baseSha256 = none ∧ entry.payload = data) ∨
      ∃ base keyframe, entry.codec = .zstdPrefix ∧ entry.baseSha256 = some base ∧ base ≠ digest ∧
        keyframeBytes h (storeEntry t base) base = .ok keyframe ∧
        decodeDelta z keyframe entry.payload entry.rawSize = .ok data := by
  unfold restore
  split
  · next hc hb => simp [hc, hb]
  · next base hc hb =>
    by_cases he : base = digest
    · simp [hc, hb, he]
    · simp [hc, hb, he, bind_ok]
  · next hraw hdelta =>
    constructor
    · intro hd
      cases hd
    · rintro (⟨hc, hb, -⟩ | ⟨base, keyframe, hc, hb, -⟩)
      · exact (hraw hc hb).elim
      · exact (hdelta base hc hb).elim

theorem loadStoredBundle_ok :
    loadStoredBundle z h t digest = .ok data ↔
      ∃ entry, storeEntry t digest = some entry ∧ entry.bundleSha256 = digest ∧ 0 < entry.rawSize ∧
        entry.rawSize ≤ maxBundleBytes ∧ restore z h t entry digest = .ok data ∧
        (data.length : Int) = entry.rawSize ∧ h.hexdigest data = digest := by
  simp only [loadStoredBundle, bind_ok, orElse_ok, ensure_ok, pure_ok]
  constructor
  · rintro ⟨entry, he, -, ⟨hk, hp, hm⟩, _, hr, -, ⟨hl, hh⟩, rfl⟩
    exact ⟨entry, he, hk, hp, hm, hr, hl, hh⟩
  · rintro ⟨entry, he, hk, hp, hm, hr, hl, hh⟩
    exact ⟨entry, he, (), ⟨hk, hp, hm⟩, data, hr, (), ⟨hl, hh⟩, rfl⟩

theorem loadStoredBundle_append
    (hd : loadStoredBundle z h t digest = .ok data) : loadStoredBundle z h (t ++ u) digest = .ok data := by
  obtain ⟨entry, he, hk, hp, hm, hr, hl, hh⟩ := loadStoredBundle_ok.mp hd
  refine loadStoredBundle_ok.mpr ⟨entry, storeEntry_append he, hk, hp, hm, ?_, hl, hh⟩
  rcases restore_ok.mp hr with hraw | ⟨base, keyframe, hc, hb, hne, hf, hdec⟩
  · exact restore_ok.mpr (.inl hraw)
  · exact restore_ok.mpr (.inr ⟨base, keyframe, hc, hb, hne, keyframeBytes_append hf, hdec⟩)

/-- A keyframe, or a delta against one of the table. -/
def BundleRow.Rooted (t : List BundleRow) (row : BundleRow) : Prop :=
  (row.codec = .raw ∧ row.baseSha256 = none) ∨
    (row.codec = .zstdPrefix ∧ ∃ k ∈ t, row.baseSha256 = some k.bundleSha256 ∧ k.codec = .raw)

theorem BundleRow.Rooted.append (hr : row.Rooted t) : row.Rooted (t ++ u) := by
  rcases hr with hraw | ⟨hd, k, hk, hb, hc⟩
  · exact .inl hraw
  · exact .inr ⟨hd, k, List.mem_append_left _ hk, hb, hc⟩

theorem insertBundle_ok (hi : insertBundle t row = .ok t') :
    t' = t ++ [row] ∧ storeEntry t row.bundleSha256 = none ∧ row.Rooted t := by
  simp only [insertBundle, bind_ok, ensure_ok, pure_ok] at hi
  obtain ⟨-, hfresh, -, -, -, -, -, -, -, hshape, -, hbase, rfl⟩ := hi
  refine ⟨rfl, hfresh, ?_⟩
  rcases hshape with hraw | ⟨hc, -, -⟩
  · exact .inl hraw
  · rcases hbase with hraw | hk
    · rw [hraw] at hc
      cases hc
    · exact .inr ⟨hc, hk⟩

/-- A delta that is kept was made from a verified keyframe and decodes back. -/
theorem tryKeyframe_some {raw payload : Bytes}
    (hk : tryKeyframe z h t raw base = .ok (some payload)) :
    ∃ keyframe, keyframeBytes h (storeEntry t base) base = .ok keyframe ∧
      decodeDelta z keyframe payload raw.length = .ok raw := by
  unfold tryKeyframe at hk
  split at hk
  · simp at hk
  · next keyframe hf =>
    simp only [bind_ok] at hk
    obtain ⟨payload', -, hk⟩ := hk
    split at hk
    · simp [pure_ok] at hk
    · split at hk
      · next hdec =>
        simp only [pure_ok, Option.some.injEq] at hk
        exact ⟨keyframe, hf, hk ▸ hdec⟩
      · simp [pure_ok] at hk

theorem findDelta_some {raw payload : Bytes} {bases : List String}
    (hf : findDelta z h t raw bases = .ok (some (base, payload))) :
    ∃ keyframe, keyframeBytes h (storeEntry t base) base = .ok keyframe ∧
      decodeDelta z keyframe payload raw.length = .ok raw := by
  induction bases with
  | nil => simp [findDelta] at hf
  | cons b bases ih =>
    simp only [findDelta, bind_ok] at hf
    obtain ⟨kept, hk, hf⟩ := hf
    cases kept with
    | some p =>
      simp only [pure_ok, Option.some.injEq, Prod.mk.injEq] at hf
      obtain ⟨rfl, rfl⟩ := hf
      exact tryKeyframe_some hk
    | none => exact ih hf

/-- What an answered call did: it found the bytes there, or it added one row that
restores to them, raw or against a verified keyframe. -/
theorem storeBundle_ok {out : Codec × Nat}
    (hs : storeBundle z h t digest raw = .ok (out, t')) :
    (t' = t ∧ loadStoredBundle z h t digest = .ok raw) ∨
    ∃ row, insertBundle t row = .ok t' ∧ row.bundleSha256 = digest ∧ row.rawSize = raw.length ∧
      0 < row.rawSize ∧ row.rawSize ≤ maxBundleBytes ∧ h.hexdigest raw = digest ∧
      restore z h t row digest = .ok raw := by
  simp only [storeBundle, bind_ok, ensure_ok] at hs
  obtain ⟨-, ⟨hne, hmax, hh⟩, hs⟩ := hs
  have hpos : (0 : Int) < raw.length := by
    have := List.length_pos_iff.mpr hne
    omega
  cases he : storeEntry t digest with
  | some existing =>
    simp only [he, bind_ok, ensure_ok, pure_ok, Prod.mk.injEq] at hs
    obtain ⟨held, hheld, -, rfl, -, rfl⟩ := hs
    exact .inl ⟨rfl, hheld⟩
  | none =>
    simp only [he, bind_ok] at hs
    obtain ⟨found, hf, hs⟩ := hs
    cases found with
    | none =>
      simp only [bind_ok, pure_ok, Prod.mk.injEq] at hs
      obtain ⟨t'', hi, -, rfl⟩ := hs
      exact .inr ⟨_, hi, rfl, rfl, hpos, hmax, hh, restore_ok.mpr (.inl ⟨rfl, rfl, rfl⟩)⟩
    | some delta =>
      obtain ⟨base, payload⟩ := delta
      simp only [bind_ok, pure_ok, Prod.mk.injEq] at hs
      obtain ⟨t'', hi, -, rfl⟩ := hs
      obtain ⟨keyframe, hk, hdec⟩ := findDelta_some hf
      obtain ⟨k, hkey, -⟩ := keyframeBytes_ok.mp hk
      have hbase : base ≠ digest := by
        rintro rfl
        rw [he] at hkey
        cases hkey
      exact .inr ⟨_, hi, rfl, rfl, hpos, hmax, hh, restore_ok.mpr (.inr ⟨base, keyframe, rfl, rfl, hbase, hk, hdec⟩)⟩

theorem storeBundle_loads {out : Codec × Nat}
    (hs : storeBundle z h t digest raw = .ok (out, t')) : loadStoredBundle z h t' digest = .ok raw := by
  rcases storeBundle_ok hs with ⟨rfl, hl⟩ | ⟨row, hi, rfl, hsize, hpos, hmax, hh, hr⟩
  · exact hl
  · obtain ⟨rfl, hfresh, -⟩ := insertBundle_ok hi
    refine loadStoredBundle_ok.mpr ⟨row, storeEntry_new hfresh, rfl, hpos, hmax, ?_, hsize.symm, hh⟩
    rcases restore_ok.mp hr with hraw | ⟨base, keyframe, hc, hb, hne, hf, hdec⟩
    · exact restore_ok.mpr (.inl hraw)
    · exact restore_ok.mpr (.inr ⟨base, keyframe, hc, hb, hne, keyframeBytes_append hf, hdec⟩)

/-- A call only adds to the table. -/
theorem storeStep_extends (z : Zstd) (h : Sha256) (t : List BundleRow) (c : StoreCall) :
    t <+: storeStep z h t c := by
  unfold storeStep
  split
  · next out t' hs =>
    rcases storeBundle_ok hs with ⟨rfl, -⟩ | ⟨row, hi, -⟩
    · exact List.prefix_rfl
    · rw [(insertBundle_ok hi).1]
      exact List.prefix_append ..
  · exact List.prefix_rfl

theorem stored_append (z : Zstd) (h : Sha256) (calls more : List StoreCall) :
    stored z h (calls ++ more) = run (storeStep z h) (stored z h calls) more :=
  run_append ..

theorem run_storeStep_extends (z : Zstd) (h : Sha256) (t : List BundleRow) (calls : List StoreCall) :
    t <+: run (storeStep z h) t calls := by
  induction calls generalizing t with
  | nil => exact List.prefix_rfl
  | cons c calls ih => exact (storeStep_extends z h t c).trans (ih _)

theorem stored_extends (z : Zstd) (h : Sha256) (calls more : List StoreCall) :
    stored z h calls <+: stored z h (calls ++ more) := by
  rw [stored_append]
  exact run_storeStep_extends ..

/-- What the store keeps of itself: a row is a keyframe or hangs off one, and every
row restores. -/
structure Intact (z : Zstd) (h : Sha256) (t : List BundleRow) : Prop where
  shallow : ∀ row ∈ t, row.Rooted t
  restores : ∀ row ∈ t, ∃ data, loadStoredBundle z h t row.bundleSha256 = .ok data

theorem storeStep_intact (c : StoreCall) (ht : Intact z h t) : Intact z h (storeStep z h t c) := by
  unfold storeStep
  split
  · next out t' hs =>
    have hload := storeBundle_loads hs
    rcases storeBundle_ok hs with ⟨rfl, -⟩ | ⟨row, hi, hkey, -⟩
    · exact ht
    · obtain ⟨rfl, -, hshape⟩ := insertBundle_ok hi
      constructor
      · intro r hr
        rcases List.mem_append.mp hr with hr | hr
        · exact (ht.shallow r hr).append
        · rw [List.mem_singleton.mp hr]
          exact hshape.append
      · intro r hr
        rcases List.mem_append.mp hr with hr | hr
        · obtain ⟨data, hd⟩ := ht.restores r hr
          exact ⟨data, loadStoredBundle_append hd⟩
        · rw [List.mem_singleton.mp hr, hkey]
          exact ⟨c.raw, hload⟩
  · exact ht

theorem stored_intact (z : Zstd) (h : Sha256) (calls : List StoreCall) : Intact z h (stored z h calls) := by
  have hempty : Intact z h [] := ⟨by simp, by simp⟩
  have hall : Along (fun _ _ => True) (storeStep z h) [] calls := along_of (fun _ _ => trivial) _ _
  exact run_invariant (fun _ c ht _ => storeStep_intact c ht) hempty hall

theorem Intact.depth_one (ht : Intact z h t) (hr : row ∈ t)
    (hb : row.baseSha256 = some base) :
    ∃ k ∈ t, k.bundleSha256 = base ∧ k.codec = .raw ∧ k.baseSha256 = none := by
  rcases ht.shallow row hr with ⟨-, hnone⟩ | ⟨-, k, hk, hkb, hc⟩
  · rw [hb] at hnone
    cases hnone
  · have hself : k.baseSha256 = none := by
      rcases ht.shallow k hk with ⟨-, hn⟩ | ⟨hd, -⟩
      · exact hn
      · rw [hc] at hd
        cases hd
    exact ⟨k, hk, Option.some.inj (hkb.symm.trans hb), hc, hself⟩

theorem encodeDelta_installed (hz : z.installed = true) (base raw : Bytes) :
    encodeDelta z base raw = .ok (z.compress base raw) := by
  simp only [encodeDelta, bind_ok, requireZstd, ensure_ok, pure_ok]
  exact ⟨(), hz, trivial⟩

theorem tryKeyframe_total (hz : z.installed = true) (raw : Bytes) (base : String) :
    ∃ kept, tryKeyframe z h t raw base = .ok kept := by
  unfold tryKeyframe
  split
  · exact ⟨none, rfl⟩
  · next keyframe hk =>
    rw [encodeDelta_installed hz]
    by_cases hbig : raw.length < 4 * (z.compress keyframe raw).length
    · exact ⟨none, by simp [bind, Except.bind, pure, Except.pure, hbig]⟩
    · by_cases hdec : decodeDelta z keyframe (z.compress keyframe raw) raw.length = .ok raw
      · exact ⟨some (z.compress keyframe raw), by simp [bind, Except.bind, pure, Except.pure, hbig, hdec]⟩
      · exact ⟨none, by simp [bind, Except.bind, pure, Except.pure, hbig, hdec]⟩

theorem findDelta_total (hz : z.installed = true) (raw : Bytes) (bases : List String) :
    ∃ found, findDelta z h t raw bases = .ok found := by
  induction bases with
  | nil => exact ⟨none, rfl⟩
  | cons b bases ih =>
    obtain ⟨kept, hk⟩ := tryKeyframe_total (h := h) (t := t) hz raw b
    cases kept with
    | some payload => exact ⟨some (b, payload), by simp [findDelta, hk, bind, Except.bind, pure, Except.pure]⟩
    | none =>
      obtain ⟨found, hf⟩ := ih
      exact ⟨found, by simp [findDelta, hk, bind, Except.bind, hf]⟩

/-- The constraints of the table admit every row the code writes. -/
theorem insertBundle_total (hfresh : storeEntry t row.bundleSha256 = none)
    (hhex : isHexOf 64 row.bundleSha256 = true) (hsize : 0 < row.rawSize ∧ row.rawSize ≤ maxBundleBytes)
    (hroot : row.Rooted t) : insertBundle t row = .ok (t ++ [row]) := by
  have hself : row.baseSha256 ≠ some row.bundleSha256 ∨ row.codec = .raw := by
    rcases hroot with ⟨hraw, -⟩ | ⟨-, k, hk, hb, -⟩
    · exact .inr hraw
    · refine .inl fun he => ?_
      have hkey := Option.some.inj (hb.symm.trans he)
      exact lookup_eq_none.mp hfresh k hk hkey
  have hshape : (row.codec = .raw ∧ row.baseSha256 = none) ∨
      (row.codec = .zstdPrefix ∧ row.baseSha256 ≠ none ∧ row.baseSha256 ≠ some row.bundleSha256) := by
    rcases hroot with hraw | ⟨hd, k, -, hb, -⟩
    · exact .inl hraw
    · refine .inr ⟨hd, by simp [hb], hself.resolve_right (by simp [hd])⟩
  have hbase : row.codec = .raw ∨ ∃ k ∈ t, row.baseSha256 = some k.bundleSha256 ∧ k.codec = .raw :=
    hroot.imp And.left And.right
  have hcodec : row.codec = .raw ∨ row.codec = .zstdPrefix := hroot.imp And.left And.left
  simp only [insertBundle, bind_ok, ensure_ok, pure_ok]
  exact ⟨(), hfresh, (), hhex, (), hcodec, (), hsize, (), hshape, (), hbase, trivial⟩

/-- With the codec installed, bytes under their own digest are refused only where other
bytes of the same digest are held. -/
theorem storeBundle_total (hz : z.installed = true) (ht : Intact z h t) (hne : raw ≠ [])
    (hmax : (raw.length : Int) ≤ maxBundleBytes) :
    (∃ out t', storeBundle z h t (h.hexdigest raw) raw = .ok (out, t')) ∨
      ∃ held, held ≠ raw ∧ loadStoredBundle z h t (h.hexdigest raw) = .ok held := by
  have hpos : (0 : Int) < raw.length := by
    have := List.length_pos_iff.mpr hne
    omega
  cases he : storeEntry t (h.hexdigest raw) with
  | some existing =>
    obtain ⟨held, hheld⟩ := ht.restores existing (lookup_mem he)
    rw [lookup_key he] at hheld
    by_cases hsame : held = raw
    · refine .inl ⟨(existing.codec, existing.payload.length), t, ?_⟩
      simp only [storeBundle, bind_ok, ensure_ok, he, pure_ok]
      exact ⟨(), ⟨hne, hmax, trivial⟩, held, hheld, (), hsame, trivial⟩
    · exact .inr ⟨held, hsame, hheld⟩
  | none =>
    obtain ⟨found, hf⟩ := findDelta_total (h := h) (t := t) hz raw (keyframesFor t raw)
    cases found with
    | none =>
      have hroot : BundleRow.Rooted t ⟨h.hexdigest raw, .raw, none, raw.length, raw⟩ := .inl ⟨rfl, rfl⟩
      have hi := insertBundle_total he (h.hex raw) ⟨hpos, hmax⟩ hroot
      refine .inl ⟨(.raw, raw.length), t ++ [⟨h.hexdigest raw, .raw, none, raw.length, raw⟩], ?_⟩
      simp [storeBundle, ensure, hne, hmax, he, hf, hi, bind, Except.bind, pure, Except.pure]
    | some delta =>
      obtain ⟨base, payload⟩ := delta
      obtain ⟨keyframe, hk, -⟩ := findDelta_some hf
      obtain ⟨k, hkey, hname, hraw, -⟩ := keyframeBytes_ok.mp hk
      have hroot : BundleRow.Rooted t ⟨h.hexdigest raw, .zstdPrefix, some base, raw.length, payload⟩ :=
        .inr ⟨rfl, k, lookup_mem hkey, by rw [hname], hraw⟩
      have hi := insertBundle_total he (h.hex raw) ⟨hpos, hmax⟩ hroot
      refine .inl ⟨(.zstdPrefix, payload.length),
        t ++ [⟨h.hexdigest raw, .zstdPrefix, some base, raw.length, payload⟩], ?_⟩
      simp [storeBundle, ensure, hne, hmax, he, hf, hi, bind, Except.bind, pure, Except.pure]

/-- A keyframe whose bytes no longer hash to its name restores nothing: every delta
against it is refused, in whatever table. -/
theorem damaged_refused {base digest : String} {k entry : BundleRow} (hk : storeEntry t base = some k)
    (hbad : h.hexdigest k.payload ≠ base) (he : storeEntry t digest = some entry)
    (hb : entry.baseSha256 = some base) : ∃ e, loadStoredBundle z h t digest = .error e := by
  cases hl : loadStoredBundle z h t digest with
  | error e => exact ⟨e, rfl⟩
  | ok data =>
    obtain ⟨entry', he', -, -, -, hr, -⟩ := loadStoredBundle_ok.mp hl
    obtain rfl : entry = entry' := Option.some.inj (he.symm.trans he')
    rcases restore_ok.mp hr with ⟨-, hnone, -⟩ | ⟨base', keyframe, -, hb', -, hf, -⟩
    · rw [hb] at hnone
      cases hnone
    · obtain rfl : base = base' := Option.some.inj (hb.symm.trans hb')
      obtain ⟨k', hk', -, -, -, -, hh, -⟩ := keyframeBytes_ok.mp hf
      obtain rfl : k = k' := Option.some.inj (hk.symm.trans hk')
      exact (hbad hh).elim

/-- Nor is it taken as the base of a new delta. -/
theorem damaged_unused {k row : BundleRow} (hk : storeEntry t base = some k)
    (hbad : h.hexdigest k.payload ≠ base) {c : StoreCall} (hr : row ∈ storeStep z h t c) (hnew : row ∉ t) :
    row.baseSha256 ≠ some base := by
  intro hb
  unfold storeStep at hr
  split at hr
  · next out t' hs =>
    rcases storeBundle_ok hs with ⟨rfl, -⟩ | ⟨row', hi, -, -, -, -, -, hrest⟩
    · exact hnew hr
    · obtain ⟨rfl, -, -⟩ := insertBundle_ok hi
      obtain rfl : row = row' := by
        simpa [hnew] using hr
      rcases restore_ok.mp hrest with ⟨-, hnone, -⟩ | ⟨base', keyframe, -, hb', -, hf, -⟩
      · rw [hb] at hnone
        cases hnone
      · obtain rfl : base = base' := Option.some.inj (hb.symm.trans hb')
        obtain ⟨k', hk', -, -, -, -, hh, -⟩ := keyframeBytes_ok.mp hf
        obtain rfl : k = k' := Option.some.inj (hk.symm.trans hk')
        exact hbad hh
  · exact hnew hr

/-- The bundle store gives back what was put in. Over every sequence of calls and every
codec: bytes whose call was answered are what their digest loads ever after, and bytes
under their own digest are answered unless others of that digest are held; a delta
hangs off a stored keyframe that has no base; rows are only added. In any table,
damaged or not, a keyframe that does not match its name restores no other row and
becomes the base of none. -/
theorem bundles_round_trip (z : Zstd) (h : Sha256) (calls : List StoreCall) :
    (∀ past c later, calls = past ++ c :: later →
      (∃ out t', storeBundle z h (stored z h past) c.digest c.raw = .ok (out, t')) →
      loadStoredBundle z h (stored z h calls) c.digest = .ok c.raw) ∧
    (∀ raw : Bytes, z.installed = true → raw ≠ [] → (raw.length : Int) ≤ maxBundleBytes →
      (∃ out t', storeBundle z h (stored z h calls) (h.hexdigest raw) raw = .ok (out, t')) ∨
        ∃ held, held ≠ raw ∧ loadStoredBundle z h (stored z h calls) (h.hexdigest raw) = .ok held) ∧
    (∀ row ∈ stored z h calls, ∀ base, row.baseSha256 = some base →
      ∃ k ∈ stored z h calls, k.bundleSha256 = base ∧ k.codec = .raw ∧ k.baseSha256 = none) ∧
    (∀ past later, calls = past ++ later → stored z h past <+: stored z h calls) ∧
    ∀ (t : List BundleRow) (base : String) (k : BundleRow), storeEntry t base = some k →
      h.hexdigest k.payload ≠ base →
      (∀ digest entry, storeEntry t digest = some entry → entry.baseSha256 = some base →
        ∃ e, loadStoredBundle z h t digest = .error e) ∧
      ∀ c, ∀ row ∈ storeStep z h t c, row ∉ t → row.baseSha256 ≠ some base := by
  refine ⟨?_, ?_, ?_, ?_, ?_⟩
  · rintro past c later rfl ⟨out, t', hs⟩
    have hstep : storeStep z h (stored z h past) c = t' := by
      simp only [storeStep, hs]
    obtain ⟨rest, hrest⟩ := run_storeStep_extends z h t' later
    rw [stored_append, run_cons, hstep, ← hrest]
    exact loadStoredBundle_append (storeBundle_loads hs)
  · intro raw hz hne hmax
    exact storeBundle_total hz (stored_intact z h calls) hne hmax
  · intro row hr base hb
    exact (stored_intact z h calls).depth_one hr hb
  · rintro past later rfl
    exact stored_extends z h past later
  · intro t base k hk hbad
    exact ⟨fun digest entry he hb => damaged_refused hk hbad he hb,
      fun c row hr hnew => damaged_unused hk hbad hr hnew⟩

end AItelier.State
