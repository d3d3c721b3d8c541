import AItelier.Deployment.Journal
import AItelier.Lib.Nesting

namespace AItelier.Deployment

open AItelier.Lib

section Evidence

variable {β : Type}

/-- An opened evidence file: its identity and what it holds. -/
structure Opened (β : Type) where
  inode : Nat
  payload : Content β

/-- `_open_existing_backup`. -/
def openExistingBackup (host : Host β) (d : Disk β) (f : File) : Except Stop (Option (Opened β)) :=
  match d.inode f, d.read f with
  | some i, some c =>
    if d.links i ≠ 1 then
      .error (.blocked ("legacy evidence must have link count one for independent storage: " ++ host.at f))
    else .ok (some ⟨i, c⟩)
  | _, _ => .ok none

/-- `_validate_open_evidence`, of files that did not change since they were opened. -/
def validateOpenEvidence (host : Host β) (entries : List (File × Opened β)) : Option Stop :=
  match entries with
  | [] => none
  | (f, e) :: rest =>
    match rest.find? (fun g => g.2.inode == e.inode) with
    | some g =>
      some (.blocked ("legacy evidence files are not storage-independent: " ++ host.at f ++ ", " ++ host.at g.1))
    | none => validateOpenEvidence host rest

def recoveryMalformed : Stop := .blocked "deployment journal exact migration recovery is malformed"

/-- `_migration_recovery_bytes`. -/
def migrationRecoveryBytes (host : Host β) (migration : Value) : Except Stop β :=
  match field migration "source_base64" with
  | .str encoded =>
    match host.b64decode encoded with
    | none => .error recoveryMalformed
    | some raw =>
      if host.b64encode raw != encoded || !(Value.int (host.size raw)).pyEq (field migration "source_bytes") ||
          !(field migration "source_sha256").isText (host.sha256 raw) then
        .error (.blocked "deployment journal exact migration recovery does not match")
      else .ok raw
  | _ => .error recoveryMalformed

def migrationMalformed (host : Host β) (migration : Value) : Bool :=
  match migration with
  | .obj m =>
    !keysAre m ["source_sha256", "source_bytes", "source_base64", "legacy_format", "actor", "provenance", "at",
        "backup", "source", "transaction"] ||
      !(Dict.get m "backup").isText (host.nameOf .backup) || !(Dict.get m "source").isText (host.nameOf .source) ||
      !(Dict.get m "transaction").isText (host.nameOf .transaction) ||
      !(match Dict.get m "source_bytes" with | .int i => decide (0 ≤ i) | _ => false) ||
      !State.isHexText 64 (Dict.get m "source_sha256") ||
      !isOneOf ["linked-v1", "deployed-v1"] (Dict.get m "legacy_format") ||
      !nonemptyString (Dict.get m "actor") || !nonemptyString (Dict.get m "provenance") ||
      !nonemptyString (Dict.get m "at")
  | _ => true

def transactionMismatch (host : Host β) (transaction migration : Value) : Bool :=
  match transaction with
  | .obj t =>
    !keysAre t ["version", "kind", "source_sha256", "source_bytes", "legacy_format", "backup", "source",
        "journal"] ||
      !(Dict.get t "version").pyEq (.int 1) || !(Dict.get t "kind").isText "deployment-journal-v1-migration" ||
      !(Dict.get t "source_sha256").pyEq (field migration "source_sha256") ||
      !(Dict.get t "source_bytes").pyEq (field migration "source_bytes") ||
      !(Dict.get t "legacy_format").pyEq (field migration "legacy_format") ||
      !(Dict.get t "backup").isText (host.nameOf .backup) || !(Dict.get t "source").isText (host.nameOf .source) ||
      !isObject (Dict.get t "journal")
  | _ => true

def evidenceMismatch : Stop := .blocked "deployment journal migration evidence does not match"

/-- What the frozen target may not differ in from the journal. -/
def targetMismatch (host : Host β) (target j migration : Value) : Bool :=
  !(field target "version").pyEq (.int 2) || !(field target "journal_id").pyEq (field j "journal_id") ||
    !(field target "migration").pyEq migration ||
    !(field target "chain").pyEq
        (.arr (chainFrom host (field target "journal_id") 0 .null (itemsOf (field target "events")))) ||
    decide ((itemsOf (field j "events")).length < (itemsOf (field target "events")).length) ||
    !Value.eqItems ((itemsOf (field j "events")).take (itemsOf (field target "events")).length)
        (itemsOf (field target "events")) ||
    !Value.eqItems ((itemsOf (field j "chain")).take (itemsOf (field target "chain")).length)
        (itemsOf (field target "chain"))

/-- `_validate_migration_transaction`. -/
def validateMigrationTransaction (host : Host β) (transaction j : Value) : Option Stop :=
  if migrationMalformed host (field j "migration") then
    some (.blocked "deployment journal migration evidence is malformed")
  else
    match migrationRecoveryBytes host (field j "migration") with
    | .error stop => some stop
    | .ok _ =>
      firstOf [
        refuse (transactionMismatch host transaction (field j "migration")) evidenceMismatch,
        (validateJournal host (field transaction "journal")).map .blocked,
        refuse (targetMismatch host (field transaction "journal") j (field j "migration")) evidenceMismatch]

def evidenceMissing : Stop := .blocked "deployment journal migration evidence is missing"

variable [DecidableEq β]

/-- `_validate_migration_evidence`. -/
def validateMigrationEvidence (host : Host β) (d : Disk β) (j : Dict) : Except Stop Unit := do
  let journalFile ← openExistingBackup host d .journal
  let backupFile ← openExistingBackup host d .backup
  let sourceFile ← openExistingBackup host d .source
  let transactionFile ← openExistingBackup host d .transaction
  match journalFile, backupFile, sourceFile, transactionFile with
  | some journalFile, some backupFile, some sourceFile, some transactionFile =>
    match validateOpenEvidence host [(.journal, journalFile), (.backup, backupFile), (.source, sourceFile),
      (.transaction, transactionFile)] with
    | some stop => .error stop
    | none =>
      let again ← journalFile.payload.decode host .journal
      if again.pyEq (.obj j) = false then
        .error (.blocked "deployment journal changed during migration evidence validation")
      else do
        let recovery ← migrationRecoveryBytes host (j.get "migration")
        if backupFile.payload.bytes host ≠ recovery ∨ sourceFile.payload.bytes host ≠ recovery then
          .error evidenceMismatch
        else do
          let transaction ← transactionFile.payload.decode host .transaction
          match validateMigrationTransaction host transaction (.obj j) with
          | some stop => .error stop
          | none => .ok ()
  | _, _, _, _ => .error evidenceMissing

end Evidence

section Loading

variable {β : Type} [DecidableEq β] (host : Host β)

def JOURNAL_FIELDS : List String := ["version", "journal_id", "events", "latest", "chain", "migration"]

def chainBroken (j : Dict) : Bool :=
  !j.all (fun f => JOURNAL_FIELDS.contains f.1) || !State.isHexText 32 (j.get "journal_id") ||
    !(j.get "chain").pyEq (.arr (chain host j))

/-- `_load_journal` of a journal that is there. -/
def loadExisting (d : Disk β) : Except Stop Dict := do
  let value ← readJournalJson host d .journal
  match validateJournal host value, value with
  | none, .obj j =>
    if !isVersion 2 (Dict.get j "version") then
      .error (.blocked "legacy deployment journal requires explicit hash-pinned migration")
    else if chainBroken host j then
      .error (.blocked "deployment journal content-hash chain is malformed or broken")
    else do
      let anchor ← readJournalJson host d .anchor
      if digest host anchor ≠ digest host (checkpoint host j) then
        .error (.blocked "deployment journal durable anchor mismatch; refusing recovery/replay")
      else if Dict.has j "migration" then do
        validateMigrationEvidence host d j
        return j
      else return j
  | none, _ => .error (.blocked ("deployment journal at " ++ host.path ++ " is malformed"))
  | some message, _ => .error (.blocked message)

def absent (d : Disk β) (f : File) : Bool := (d.inode f).isNone

def emptyJournal (journalId : String) : Dict :=
  [("version", .int 2), ("journal_id", .str journalId), ("events", .arr []), ("chain", .arr [])]

/-- `_load_journal`, where `journalId` is the identity a new journal is given. -/
def loadJournal (d : Disk β) (journalId : String) : Except Stop Dict :=
  if absent d .journal then
    if absent d .anchor && absent d .backup && absent d .source && absent d .transaction then
      .ok (emptyJournal journalId)
    else .error (.blocked "deployment journal missing with durable anchor/backup")
  else loadExisting host d

omit [DecidableEq β] in
/-- The journal as it is written, its chain over what it holds. -/
def chained (j : Dict) : Dict := j.put "chain" (.arr (chain host j))

/-- The disk with the journal written on it, behind its anchor. -/
def written (d : Disk β) (j : Dict) : Disk β :=
  (d.put .anchor (.document (checkpoint host (chained host j)))).put .journal (.document (.obj (chained host j)))

/-- `_persist_journal`, where the recursion limit leaves the encoder with an indent `room`
frames. Only that encoder is written in Python: the digests are taken before it. -/
def persistJournal (room : Nat) (d : Disk β) (j : Dict) : Except Stop Unit × Disk β :=
  if room < (checkpoint host (chained host j)).frames then (.error .recursion, d)
  else if room < (Value.obj (chained host j)).frames then
    (.error .recursion, d.put .anchor (.document (checkpoint host (chained host j))))
  else (.ok (), written host d j)

omit [DecidableEq β] in
/-- The event as `_append_to` completes it. -/
def completed (j : Dict) (event : Dict) (eventId now : String) : Dict :=
  let event := (event.put "event_id" (.str eventId)).put "at" (.str now)
  match (itemsOf (j.get "events")).getLast? with
  | some last => event.put "prior_event_id" (field last "event_id")
  | none => event.pop "prior_event_id"

/-- `_append_to`: the journal with the event, and the event. -/
def appendTo (j : Dict) (event : Dict) (eventId now : String) : Except Stop (Dict × Dict) :=
  if (itemsOf (j.get "events")).any (fun row => (field row "event_id").isText eventId) then
    .error (.blocked "deployment journal generated a duplicate event_id; refusing to write")
  else
    let event := completed j event eventId now
    .ok ((j.put "events" (.arr (itemsOf (j.get "events") ++ [.obj event]))).put "latest" (.obj event), event)

end Loading

end AItelier.Deployment
