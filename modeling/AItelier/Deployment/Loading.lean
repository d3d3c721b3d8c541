import AItelier.Deployment.Persisted

namespace AItelier.Deployment

open AItelier.Lib

variable {β : Type} {host : Host β} {j j' : Dict} {d : Disk β} {f : File}

theorem openExistingBackup_some {o : Opened β} :
    openExistingBackup host d f = .ok (some o) ↔
      d.inode f = some o.inode ∧ d.read f = some o.payload ∧ d.links o.inode = 1 := by
  rw [openExistingBackup]
  cases hi : d.inode f with
  | none => simp
  | some i =>
    cases hr : d.read f with
    | none => simp
    | some c =>
      dsimp only
      obtain ⟨oi, oc⟩ := o
      by_cases hl : d.links i = 1
      · rw [if_neg (fun hne => hne hl)]
        constructor
        · intro h
          cases h
          exact ⟨rfl, rfl, hl⟩
        · rintro ⟨h1, h2, _⟩
          cases h1
          cases h2
          rfl
      · rw [if_pos hl]
        constructor
        · intro h
          cases h
        · rintro ⟨h1, _, h3⟩
          cases h1
          exact absurd h3 hl

/-- Files with one link each are independent. -/
theorem validateOpenEvidence_none {entries : List (File × Opened β)}
    (hopen : ∀ e ∈ entries, d.inode e.1 = some e.2.inode ∧ d.Sole e.1) (hnodup : (entries.map Prod.fst).Nodup) :
    validateOpenEvidence host entries = none := by
  induction entries with
  | nil => rfl
  | cons e rest ih =>
    obtain ⟨f, o⟩ := e
    rw [List.map_cons, List.nodup_cons] at hnodup
    have hfind : rest.find? (fun g => g.2.inode == o.inode) = none := by
      rw [List.find?_eq_none]
      intro g hg hsame
      have hgopen := hopen g (List.mem_cons_of_mem _ hg)
      have hself := hopen (f, o) List.mem_cons_self
      have hinode : d.inode g.1 = d.inode f := by rw [hgopen.1, hself.1, beq_iff_eq.mp hsame]
      exact hnodup.1 (List.mem_map.mpr ⟨g, hg, hself.2.only hinode⟩)
    rw [validateOpenEvidence, hfind]
    exact ih (fun g hg => hopen g (List.mem_cons_of_mem _ hg)) hnodup.2

variable [DecidableEq β]

/-- The evidence of a migration, as it was found in order. -/
structure Evidenced (host : Host β) (d : Disk β) (j : Dict) (journalFile backup source transaction : Opened β) :
    Prop where
  journalOpen : openExistingBackup host d .journal = .ok (some journalFile)
  backupOpen : openExistingBackup host d .backup = .ok (some backup)
  sourceOpen : openExistingBackup host d .source = .ok (some source)
  transactionOpen : openExistingBackup host d .transaction = .ok (some transaction)
  independent : validateOpenEvidence host [(.journal, journalFile), (.backup, backup), (.source, source),
    (.transaction, transaction)] = none
  again : ∃ v, journalFile.payload.decode host .journal = .ok v ∧ v.pyEq (.obj j) = true
  recovery : ∃ raw, migrationRecoveryBytes host (j.get "migration") = .ok raw ∧ backup.payload.bytes host = raw ∧
    source.payload.bytes host = raw
  agreed : ∃ t, transaction.payload.decode host .transaction = .ok t ∧
    validateMigrationTransaction host t (.obj j) = none

theorem validateMigrationEvidence_ok : validateMigrationEvidence host d j = .ok () ↔
    ∃ journalFile backup source transaction, Evidenced host d j journalFile backup source transaction := by
  rw [validateMigrationEvidence]
  constructor
  · intro h
    simp only [bind_ok] at h
    obtain ⟨oj, hj, ob, hb, os, hs, ot, ht, h⟩ := h
    cases oj with
    | none => cases h
    | some oj =>
    cases ob with
    | none => cases h
    | some ob =>
    cases os with
    | none => cases h
    | some os =>
    cases ot with
    | none => cases h
    | some ot =>
    dsimp only at h
    split at h
    · cases h
    · next hind =>
      simp only [bind_ok] at h
      obtain ⟨v, hv, h⟩ := h
      split at h
      · cases h
      · next hagain =>
        simp only [bind_ok] at h
        obtain ⟨raw, hraw, h⟩ := h
        split at h
        · cases h
        · next hbytes =>
          simp only [bind_ok] at h
          obtain ⟨t, ht', h⟩ := h
          split at h
          · cases h
          · next hagreed =>
            rw [not_or, not_ne_iff, not_ne_iff] at hbytes
            exact ⟨oj, ob, os, ot, hj, hb, hs, ht, hind, ⟨v, hv, by simpa using hagain⟩,
              ⟨raw, hraw, hbytes.1, hbytes.2⟩, t, ht', hagreed⟩
  · rintro ⟨oj, ob, os, ot, hj, hb, hs, ht, hind, ⟨v, hv, hagain⟩, ⟨raw, hraw, hb', hs'⟩, t, ht', hagreed⟩
    simp only [bind_ok]
    refine ⟨_, hj, _, hb, _, hs, _, ht, ?_⟩
    dsimp only
    rw [hind]
    simp only [bind_ok]
    refine ⟨v, hv, ?_⟩
    rw [if_neg (by rw [hagain]; decide)]
    simp only [bind_ok]
    refine ⟨raw, hraw, ?_⟩
    rw [if_neg (not_or.mpr ⟨not_not.mpr hb', not_not.mpr hs'⟩)]
    simp only [bind_ok]
    refine ⟨t, ht', ?_⟩
    rw [hagreed]

/-- A journal on disk that the loader accepts. -/
structure Loaded (host : Host β) (d : Disk β) (j : Dict) : Prop where
  read : readJournalJson host d .journal = .ok (.obj j)
  valid : Valid host j
  anchored : ∃ a, readJournalJson host d .anchor = .ok a ∧ digest host a = digest host (checkpoint host j)
  evidenced : j.has "migration" = true → validateMigrationEvidence host d j = .ok ()

theorem loadExisting_ok : loadExisting host d = .ok j ↔ Loaded host d j := by
  rw [loadExisting]
  constructor
  · intro h
    rw [bind_ok] at h
    obtain ⟨value, hread, h⟩ := h
    cases value with
    | obj k =>
      cases hval : validateJournal host (.obj k) with
      | some message => rw [hval] at h; cases h
      | none =>
        rw [hval] at h
        dsimp only at h
        split at h
        · cases h
        · next hversion =>
          split at h
          · cases h
          · next hchain =>
            rw [bind_ok] at h
            obtain ⟨a, ha, h⟩ := h
            split at h
            · cases h
            · next hdigest =>
              have hvalid : Valid host k := ⟨hval, by simpa using hversion, by simpa using hchain⟩
              rw [not_ne_iff] at hdigest
              split at h
              · next hmig =>
                rw [bind_ok] at h
                obtain ⟨_, hev, h⟩ := h
                cases h
                exact ⟨hread, hvalid, ⟨a, ha, hdigest⟩, fun _ => hev⟩
              · next hmig =>
                cases h
                exact ⟨hread, hvalid, ⟨a, ha, hdigest⟩, fun hhas => absurd hhas hmig⟩
    | _ =>
      split at h
      · next heq => cases heq
      · cases h
      · cases h
  · rintro ⟨hread, hvalid, ⟨a, ha, hdigest⟩, hev⟩
    rw [bind_ok]
    refine ⟨_, hread, ?_⟩
    rw [hvalid.formed]
    dsimp only
    rw [if_neg (by rw [hvalid.current]; decide), if_neg (by rw [hvalid.chained]; decide), bind_ok]
    refine ⟨a, ha, ?_⟩
    rw [if_neg (not_not.mpr hdigest)]
    split
    · next hmig =>
      rw [bind_ok]
      exact ⟨(), hev hmig, rfl⟩
    · rfl

/-- What `load` and `persist` agree on. -/
theorem Evidenced.persist {oj ob os ot : Opened β} (h : Evidenced host d j oj ob os ot) (hvalid : Valid host j)
    (hext : Extends j j') (hplain : (Value.obj (chained host j')).Plain) :
    validateMigrationEvidence host (written host d j') (chained host j') = .ok () := by
  have hkept : ∀ g o, g ≠ .journal → g ≠ .anchor → openExistingBackup host d g = .ok (some o) →
      openExistingBackup host (written host d j') g = .ok (some o) ∧ (written host d j').Sole g := by
    intro g o hg hg' ho
    obtain ⟨hi, hr, hl⟩ := openExistingBackup_some.mp ho
    have hsole : d.Sole g := ⟨o.inode, hi, hl⟩
    have hinode : (written host d j').inode g = some o.inode := by
      rw [written, Folder.inode_put, if_neg (Ne.symm hg), Folder.inode_put, if_neg (Ne.symm hg'), hi]
    have hsole' : (written host d j').Sole g := (hsole.put_other (Ne.symm hg')).put_other (Ne.symm hg)
    obtain ⟨i, hi', hl'⟩ := id hsole'
    rw [hinode] at hi'
    cases hi'
    refine ⟨openExistingBackup_some.mpr ⟨hinode, ?_, hl'⟩, hsole'⟩
    rw [written, Folder.read_put_other (Ne.symm hg), Folder.read_put_other (Ne.symm hg'), hr]
  have hjsole : (written host d j').Sole .journal := Folder.sole_put_self _ _ _
  obtain ⟨i, hi, hl⟩ := id hjsole
  have hjopen : openExistingBackup host (written host d j') .journal =
      .ok (some ⟨i, .document (.obj (chained host j'))⟩) :=
    openExistingBackup_some.mpr ⟨hi, Folder.read_put_same, hl⟩
  obtain ⟨hb, hbs⟩ := hkept .backup ob (by decide) (by decide) h.backupOpen
  obtain ⟨hs, hss⟩ := hkept .source os (by decide) (by decide) h.sourceOpen
  obtain ⟨ht, hts⟩ := hkept .transaction ot (by decide) (by decide) h.transactionOpen
  refine validateMigrationEvidence_ok.mpr ⟨_, ob, os, ot, hjopen, hb, hs, ht, ?_, ?_, ?_, ?_⟩
  · apply validateOpenEvidence_none (d := written host d j')
    · intro e he
      simp only [List.mem_cons, List.not_mem_nil, or_false] at he
      rcases he with rfl | rfl | rfl | rfl
      · exact ⟨hi, hjsole⟩
      · exact ⟨(openExistingBackup_some.mp hb).1, hbs⟩
      · exact ⟨(openExistingBackup_some.mp hs).1, hss⟩
      · exact ⟨(openExistingBackup_some.mp ht).1, hts⟩
    · simp
  · exact ⟨_, rfl, Value.pyEq_refl _ hplain⟩
  · have hmigration : (chained host j').get "migration" = j.get "migration" := by
      rw [get_of_find (find_chained (by decide) host j'), get_of_find hext.migration]
    rw [hmigration]
    exact h.recovery
  · obtain ⟨t, ht', hagreed⟩ := h.agreed
    exact ⟨t, ht', validateMigrationTransaction_extends hvalid hext hagreed⟩

/-- Where a journal came from: a file that is accepted, or no file at all. -/
theorem loadJournal_ok {journalId : String} : loadJournal host d journalId = .ok j ↔
    Loaded host d j ∨ (absent d .journal = true ∧ absent d .anchor = true ∧ absent d .backup = true ∧
      absent d .source = true ∧ absent d .transaction = true ∧ j = emptyJournal journalId) := by
  rw [loadJournal]
  split
  · next habsent =>
    have hnone : ¬Loaded host d j := by
      intro h
      have hread := h.read
      rw [readJournalJson, Folder.read, show d.inode .journal = none from Option.isNone_iff_eq_none.mp habsent] at hread
      cases hread
    split
    · next hall =>
      simp only [Bool.and_eq_true] at hall
      obtain ⟨⟨⟨ha, hb⟩, hs⟩, ht⟩ := hall
      constructor
      · intro h
        cases h
        exact .inr ⟨habsent, ha, hb, hs, ht, rfl⟩
      · rintro (h | ⟨_, _, _, _, _, rfl⟩)
        · exact absurd h hnone
        · rfl
    · next hall =>
      constructor
      · intro h
        cases h
      · rintro (h | ⟨_, ha, hb, hs, ht, _⟩)
        · exact absurd h hnone
        · exact absurd (by rw [ha, hb, hs, ht]; rfl) hall
  · next hpresent =>
    rw [loadExisting_ok]
    exact ⟨.inl, fun h => h.resolve_right (fun h => hpresent h.1)⟩

omit [DecidableEq β] in
theorem emptyJournal_valid {journalId : String} (h : State.isHexOf 32 journalId = true) :
    Valid host (emptyJournal journalId) where
  formed := validate_none.mpr ⟨.inr rfl, rfl, rfl, rfl⟩
  current := rfl
  chained := by
    have hid : State.isHexText 32 ((emptyJournal journalId).get "journal_id") = true := h
    rw [chainBroken, hid]
    rfl

/-- The journal that is written is the journal that is loaded. -/
theorem load_persist {journalId : String} (hload : loadJournal host d journalId = .ok j)
    (hext : Extends j j') (hsheet : Sheet host j')
    (hplain : (Value.obj (chained host j')).Plain) : Loaded host (written host d j') (chained host j') where
  read := by
    rw [readJournalJson, written, Folder.read_put_same]
    rfl
  valid := hsheet.valid
  anchored := by
    refine ⟨checkpoint host (chained host j'), ?_, rfl⟩
    rw [readJournalJson, written, Folder.read_put_other (by decide), Folder.read_put_same]
    rfl
  evidenced := by
    intro hhas
    have hold : j.has "migration" = true := by
      rw [Dict.has, find_chained (by decide), hext.migration] at hhas
      exact hhas
    rcases loadJournal_ok.mp hload with h | ⟨_, _, _, _, _, rfl⟩
    · obtain ⟨oj, ob, os, ot, hev⟩ := validateMigrationEvidence_ok.mp (h.evidenced hold)
      exact hev.persist h.valid hext hplain
    · cases hold

end AItelier.Deployment
