import AttributionChain.LedgerChain
import AttributionChain.Sorting

/-!
# The ledger store

`internal/ledgerstore` over the table of the migrations
`create_ledger_record.sql` and `tighten_ledger_record_numeric_domain.sql`.  The
column types carry the length checks and the upper ends of the ranges; `Table`
carries the primary key, the uniqueness of positions, the predecessor foreign key,
the bound on the record bytes and the lower ends of the ranges as proofs, so a
table that breaks one cannot be built.  Rows are only ever added, at the end.

`insertRecord` decides a violation in PostgreSQL's order: column checks, the
primary key that `ON CONFLICT DO NOTHING` suppresses, the unique index, and the
foreign key, which is checked when the new row is already visible.  `append` is
the Go function around it.  `append_eq_none` states when it stores a record, and
everything a caller learns from an append starts there.
-/

namespace AttributionChain.Store

open Ledger

/-! ### The table -/

/-- A row of `ledger_record`.  `numeric(20,0)` columns are restricted to the
positive numbers of `uint64` by their checks: see `NumericRange`. -/
structure Row where
  recordDigest : Digest
  ledgerID : LedgerID
  sequenceNumber : UInt64
  previousRecordDigest : Option Digest
  eventKind : UInt64
  payloadVersion : UInt64
  recordBytes : Bytes
deriving DecidableEq

/-- The check `ledger_record_bytes_bound`. -/
def Row.BytesBound (row : Row) : Prop :=
  1 ≤ row.recordBytes.length ∧ row.recordBytes.length ≤ 131200

instance (row : Row) : Decidable row.BytesBound := inferInstanceAs (Decidable (_ ∧ _))

/-- The checks `ledger_record_event_kind_range`, `ledger_record_payload_version_range`
and `ledger_record_sequence_range`, as far as the type does not imply them. -/
def Row.NumericRange (row : Row) : Prop :=
  row.eventKind ≠ 0 ∧ row.payloadVersion ≠ 0 ∧ row.sequenceNumber ≠ 0

def Row.position (row : Row) : LedgerID × UInt64 := (row.ledgerID, row.sequenceNumber)

/-- `ledger_record_previous_fk`: a named predecessor is among the rows. -/
def Row.PredecessorIn (row : Row) (rows : List Row) : Prop :=
  ∀ previous ∈ row.previousRecordDigest, ∃ stored ∈ rows, stored.recordDigest = previous

instance (row : Row) (rows : List Row) : Decidable (row.PredecessorIn rows) :=
  inferInstanceAs (Decidable (∀ _ ∈ _, _))

structure Table where
  rows : List Row
  bytesBound : ∀ row ∈ rows, row.BytesBound
  numericRange : ∀ row ∈ rows, row.NumericRange
  digestPk : (rows.map Row.recordDigest).Nodup
  ledgerSequenceUnique : (rows.map Row.position).Nodup
  previousFk : ∀ row ∈ rows, row.PredecessorIn rows

def Table.empty : Table where
  rows := []
  bytesBound := by simp
  numericRange := by simp
  digestPk := List.nodup_nil
  ledgerSequenceUnique := List.nodup_nil
  previousFk := by simp

theorem Row.PredecessorIn.mono {row : Row} {rows more : List Row} (h : row.PredecessorIn rows) :
    row.PredecessorIn (rows ++ more) := by
  intro previous hprevious
  obtain ⟨stored, hstored, hdigest⟩ := h previous hprevious
  exact ⟨stored, List.mem_append_left _ hstored, hdigest⟩

theorem nodup_map_concat {α β : Type} {key : α → β} {items : List α} {item : α}
    (h : (items.map key).Nodup) (hfresh : ∀ other ∈ items, key other ≠ key item) :
    ((items ++ [item]).map key).Nodup := by
  rw [List.map_append, List.map_singleton, List.nodup_append]
  refine ⟨h, List.nodup_singleton _, ?_⟩
  intro left hleft right hright heq
  obtain ⟨other, hother, rfl⟩ := List.mem_map.mp hleft
  rw [List.mem_singleton.mp hright] at heq
  exact hfresh other hother heq

/-- What a new row has to meet. -/
structure Table.Admits (table : Table) (row : Row) : Prop where
  bytesBound : row.BytesBound
  numericRange : row.NumericRange
  digest : ∀ stored ∈ table.rows, stored.recordDigest ≠ row.recordDigest
  position : ∀ stored ∈ table.rows, stored.position ≠ row.position
  predecessor : row.PredecessorIn (table.rows ++ [row])

def Table.add (table : Table) (row : Row) (h : table.Admits row) : Table where
  rows := table.rows ++ [row]
  bytesBound := by
    intro other hother
    rcases List.mem_append.mp hother with hold | hnew
    · exact table.bytesBound other hold
    · rw [List.mem_singleton.mp hnew]
      exact h.bytesBound
  numericRange := by
    intro other hother
    rcases List.mem_append.mp hother with hold | hnew
    · exact table.numericRange other hold
    · rw [List.mem_singleton.mp hnew]
      exact h.numericRange
  digestPk := nodup_map_concat table.digestPk h.digest
  ledgerSequenceUnique := nodup_map_concat table.ledgerSequenceUnique h.position
  previousFk := by
    intro other hother
    rcases List.mem_append.mp hother with hold | hnew
    · exact (table.previousFk other hold).mono
    · rw [List.mem_singleton.mp hnew]
      exact h.predecessor

/-! ### Errors -/

/-- The constraints an insert can violate with an error. -/
inductive Constraint where
  | digestPk | ledgerSequenceUnique | previousFk | bytesBound
  | eventKindRange | payloadVersionRange | sequenceRange
deriving DecidableEq, Repr

def Constraint.name : Constraint → String
  | .digestPk => "ledger_record_digest_pk"
  | .ledgerSequenceUnique => "ledger_record_ledger_sequence_unique"
  | .previousFk => "ledger_record_previous_fk"
  | .bytesBound => "ledger_record_bytes_bound"
  | .eventKindRange => "ledger_record_event_kind_range"
  | .payloadVersionRange => "ledger_record_payload_version_range"
  | .sequenceRange => "ledger_record_sequence_range"

/-- The part of `pgconn.PgError` that is read. -/
structure PgError where
  code : String
  constraintName : String
deriving DecidableEq, Repr

def uniqueViolationCode : String := "23505"
def foreignKeyViolationCode : String := "23503"
def checkViolationCode : String := "23514"

/-- The error of `Append`: a sentinel, or the wrapped error of the driver. -/
inductive AppendError where
  | chainHeadMoved
  | duplicateRecord
  | unknownPredecessor
  | unclassified
deriving DecidableEq, Repr

def AppendError.text : AppendError → String
  | .chainHeadMoved => "ledger store chain head moved"
  | .duplicateRecord => "ledger store duplicate record"
  | .unknownPredecessor => "ledger store unknown predecessor"
  | .unclassified => "append ledger record: "

def classifyAppendError (err : PgError) : AppendError :=
  if err.code = uniqueViolationCode ∧ err.constraintName = Constraint.ledgerSequenceUnique.name then
    .chainHeadMoved
  else if err.code = uniqueViolationCode ∧ err.constraintName = Constraint.digestPk.name then
    .duplicateRecord
  else if err.code = foreignKeyViolationCode ∧ err.constraintName = Constraint.previousFk.name then
    .unknownPredecessor
  else .unclassified

/-! ### Writing -/

/-- The insert statement, with the number of rows it affected. -/
def insertRecord (table : Table) (row : Row) : Except PgError (Table × Nat) :=
  if hbytes : ¬ row.BytesBound then
    .error ⟨checkViolationCode, Constraint.bytesBound.name⟩
  else if hkind : row.eventKind = 0 then
    .error ⟨checkViolationCode, Constraint.eventKindRange.name⟩
  else if hversion : row.payloadVersion = 0 then
    .error ⟨checkViolationCode, Constraint.payloadVersionRange.name⟩
  else if hsequence : row.sequenceNumber = 0 then
    .error ⟨checkViolationCode, Constraint.sequenceRange.name⟩
  else if hdigest : ∃ stored ∈ table.rows, stored.recordDigest = row.recordDigest then
    .ok (table, 0)
  else if hposition : ∃ stored ∈ table.rows, stored.position = row.position then
    .error ⟨uniqueViolationCode, Constraint.ledgerSequenceUnique.name⟩
  else if hprevious : ¬ row.PredecessorIn (table.rows ++ [row]) then
    .error ⟨foreignKeyViolationCode, Constraint.previousFk.name⟩
  else
    .ok (table.add row
      { bytesBound := not_not.mp hbytes
        numericRange := ⟨hkind, hversion, hsequence⟩
        digest := fun stored hstored heq => hdigest ⟨stored, hstored, heq⟩
        position := fun stored hstored heq => hposition ⟨stored, hstored, heq⟩
        predecessor := not_not.mp hprevious }, 1)

/-- The derived columns of a record, taken from its accessors. -/
def rowOfRecord (record : StructuralRecord) : Row where
  recordDigest := record.recordDigest
  ledgerID := record.event.ledgerID
  sequenceNumber := record.event.sequence
  previousRecordDigest := record.event.predecessor
  eventKind := record.event.kind
  payloadVersion := record.event.payloadVersion
  recordBytes := record.bytes

/-- `Store.Append` -/
def append (table : Table) (record : StructuralRecord) : Table × Option AppendError :=
  match insertRecord table (rowOfRecord record) with
  | .error err => (table, some (classifyAppendError err))
  | .ok (table, affected) => (table, if affected = 0 then some .duplicateRecord else none)

theorem append_eq_none {table next : Table} {record : StructuralRecord} :
    append table record = (next, none) ↔
      ∃ h : table.Admits (rowOfRecord record), next = table.add (rowOfRecord record) h := by
  unfold append insertRecord
  constructor
  · intro h
    split_ifs at h
    all_goals simp only [Prod.mk.injEq, reduceCtorEq, and_false, ite_true, one_ne_zero, ite_false,
      and_true] at h
    exact ⟨_, h.symm⟩
  · rintro ⟨h, rfl⟩
    have hdigest : ¬ ∃ stored ∈ table.rows,
        stored.recordDigest = (rowOfRecord record).recordDigest := by
      rintro ⟨stored, hstored, heq⟩
      exact h.digest stored hstored heq
    have hposition : ¬ ∃ stored ∈ table.rows,
        stored.position = (rowOfRecord record).position := by
      rintro ⟨stored, hstored, heq⟩
      exact h.position stored hstored heq
    obtain ⟨hkind, hversion, hsequence⟩ := h.numericRange
    rw [dif_neg (not_not.mpr h.bytesBound), dif_neg hkind, dif_neg hversion, dif_neg hsequence,
      dif_neg hdigest, dif_neg hposition, dif_neg (not_not.mpr h.predecessor)]
    rfl

/-- **What `Append` can answer**, and why. -/
theorem append_cases (table : Table) (record : StructuralRecord) :
    (¬ ((rowOfRecord record).BytesBound ∧ (rowOfRecord record).NumericRange) ∧
      append table record = (table, some .unclassified)) ∨
    ((∃ stored ∈ table.rows, stored.recordDigest = record.recordDigest) ∧
      append table record = (table, some .duplicateRecord)) ∨
    (((¬ ∃ stored ∈ table.rows, stored.recordDigest = record.recordDigest) ∧
        ∃ stored ∈ table.rows, stored.position = (rowOfRecord record).position) ∧
      append table record = (table, some .chainHeadMoved)) ∨
    (((¬ ∃ stored ∈ table.rows, stored.recordDigest = record.recordDigest) ∧
        (¬ ∃ stored ∈ table.rows, stored.position = (rowOfRecord record).position) ∧
        ¬ (rowOfRecord record).PredecessorIn (table.rows ++ [rowOfRecord record])) ∧
      append table record = (table, some .unknownPredecessor)) ∨
    ∃ hadmits : table.Admits (rowOfRecord record),
      append table record = (table.add (rowOfRecord record) hadmits, none) := by
  unfold append insertRecord
  by_cases hbytes : (rowOfRecord record).BytesBound
  · rw [dif_neg (not_not.mpr hbytes)]
    by_cases hkind : (rowOfRecord record).eventKind = 0
    · rw [dif_pos hkind]
      exact .inl ⟨fun h => h.2.1 hkind, rfl⟩
    rw [dif_neg hkind]
    by_cases hversion : (rowOfRecord record).payloadVersion = 0
    · rw [dif_pos hversion]
      exact .inl ⟨fun h => h.2.2.1 hversion, rfl⟩
    rw [dif_neg hversion]
    by_cases hsequence : (rowOfRecord record).sequenceNumber = 0
    · rw [dif_pos hsequence]
      exact .inl ⟨fun h => h.2.2.2 hsequence, rfl⟩
    rw [dif_neg hsequence]
    split_ifs with hdigest hposition hprevious
    · exact .inr (.inl ⟨hdigest, rfl⟩)
    · exact .inr (.inr (.inl ⟨⟨hdigest, hposition⟩, rfl⟩))
    · have hadmits : table.Admits (rowOfRecord record) := {
        bytesBound := hbytes
        numericRange := ⟨hkind, hversion, hsequence⟩
        digest := fun stored hstored hsame => hdigest ⟨stored, hstored, hsame⟩
        position := fun stored hstored hsame => hposition ⟨stored, hstored, hsame⟩
        predecessor := hprevious }
      exact .inr (.inr (.inr (.inr ⟨hadmits, rfl⟩)))
    · exact .inr (.inr (.inr (.inl ⟨⟨hdigest, hposition, hprevious⟩, rfl⟩)))
  · rw [dif_pos hbytes]
    exact .inl ⟨fun h => hbytes h.1, rfl⟩

/-- An append that returns an error stores nothing. -/
theorem append_eq_some {table next : Table} {record : StructuralRecord} {err : AppendError}
    (h : append table record = (next, some err)) : next = table := by
  rcases append_cases table record with ⟨-, hfailed⟩ | ⟨-, hfailed⟩ | ⟨-, hfailed⟩ |
    ⟨-, hfailed⟩ | ⟨_, hadded⟩
  · cases hfailed.symm.trans h
    rfl
  · cases hfailed.symm.trans h
    rfl
  · cases hfailed.symm.trans h
    rfl
  · cases hfailed.symm.trans h
    rfl
  · cases hadded.symm.trans h

theorem append_eq_duplicate {table next : Table} {record : StructuralRecord}
    (h : append table record = (next, some .duplicateRecord)) :
    ∃ stored ∈ table.rows, stored.recordDigest = record.recordDigest := by
  have herr := congrArg Prod.snd h
  rcases append_cases table record with ⟨-, hanswer⟩ | ⟨htaken, -⟩ | ⟨-, hanswer⟩ | ⟨-, hanswer⟩ |
    ⟨_, hanswer⟩
  · cases (congrArg Prod.snd hanswer).symm.trans herr
  · exact htaken
  · cases (congrArg Prod.snd hanswer).symm.trans herr
  · cases (congrArg Prod.snd hanswer).symm.trans herr
  · cases (congrArg Prod.snd hanswer).symm.trans herr

theorem append_eq_moved {table next : Table} {record : StructuralRecord}
    (h : append table record = (next, some .chainHeadMoved)) :
    ∃ stored ∈ table.rows, stored.position = (rowOfRecord record).position := by
  have herr := congrArg Prod.snd h
  rcases append_cases table record with ⟨-, hanswer⟩ | ⟨-, hanswer⟩ | ⟨⟨-, htaken⟩, -⟩ |
    ⟨-, hanswer⟩ | ⟨_, hanswer⟩
  · cases (congrArg Prod.snd hanswer).symm.trans herr
  · cases (congrArg Prod.snd hanswer).symm.trans herr
  · exact htaken
  · cases (congrArg Prod.snd hanswer).symm.trans herr
  · cases (congrArg Prod.snd hanswer).symm.trans herr

/-! ### Reading -/

inductive ReadError where
  | invalidHead (err : ValidationError)
  | headLedgerMismatch (ledgerID : LedgerID)
  | recordNotFound
  | invalidRecord (err : ValidationError)
  | digestMismatch (digest : Digest)
  | invalidScanned (err : ValidationError)
  | scannedLedgerMismatch (ledgerID : LedgerID)
deriving DecidableEq

/-- The rows of one ledger, in ascending sequence order. -/
def Table.ledgerRows (table : Table) (ledgerID : LedgerID) : List Row :=
  sortBy (fun row => row.sequenceNumber.toNat)
    (table.rows.filter fun row => row.ledgerID = ledgerID)

variable (platform : Platform)

/-- `Store.Head` -/
def head (table : Table) (ledgerID : LedgerID) : Except ReadError ChainState :=
  match (table.ledgerRows ledgerID).getLast? with
  | none => .ok .empty
  | some row => do
    let record ← (validateRecordStructure platform row.recordBytes).mapError .invalidHead
    let state := chainStateFromRecord record
    failIf (state.initialized = false ∨ state.ledgerID ≠ ledgerID) (.headLedgerMismatch ledgerID)
    return state

/-- `Store.Record` -/
def record (table : Table) (digest : Digest) : Except ReadError StructuralRecord :=
  match table.rows.find? fun row => row.recordDigest = digest with
  | none => .error .recordNotFound
  | some row => do
    let record ← (validateRecordStructure platform row.recordBytes).mapError .invalidRecord
    failIf (record.recordDigest ≠ digest) (.digestMismatch digest)
    return record

/-- One row of a scan. -/
def scanRow (ledgerID : LedgerID) (row : Row) : Except ReadError StructuralRecord := do
  let record ← (validateRecordStructure platform row.recordBytes).mapError .invalidScanned
  failIf (record.event.ledgerID ≠ ledgerID) (.scannedLedgerMismatch ledgerID)
  return record

/-- `Store.ScanRecords` -/
def scanRecords (table : Table) (ledgerID : LedgerID) (fromSequence : UInt64) (limit : Int) :
    Except ReadError (List StructuralRecord) :=
  if limit ≤ 0 then .ok []
  else
    (((table.ledgerRows ledgerID).filter fun row => fromSequence ≤ row.sequenceNumber).take
      limit.toNat).mapM (scanRow platform ledgerID)

/-- A read that may fail as a query, which is the error `none`. -/
def query {α : Type} (queryFails : Bool) (result : Except ReadError α) :
    Except (Option ReadError) α :=
  if queryFails then .error none else result.mapError some

theorem query_eq_ok {α : Type} {queryFails : Bool} {result : Except ReadError α} {value : α} :
    query queryFails result = .ok value ↔ queryFails = false ∧ result = .ok value := by
  unfold query
  cases queryFails with
  | true => simp
  | false => simp [mapError_eq_ok]

/-! ### The rows of a ledger -/

variable {platform} {table : Table} {ledgerID : LedgerID} {row : Row}

theorem mem_ledgerRows : row ∈ table.ledgerRows ledgerID ↔
    row ∈ table.rows ∧ row.ledgerID = ledgerID := by
  simp [Table.ledgerRows]

theorem nodup_ledgerSequences (table : Table) (ledgerID : LedgerID) :
    ((table.rows.filter fun row => row.ledgerID = ledgerID).map
      fun row => row.sequenceNumber.toNat).Nodup := by
  have hpositions : ((table.rows.filter fun row => row.ledgerID = ledgerID).map
      Row.position).Nodup := table.ledgerSequenceUnique.sublist (List.filter_sublist.map _)
  rw [List.nodup_map_iff_inj_on (List.Nodup.of_map _ hpositions)]
  intro left hleft right hright hsequence
  refine List.inj_on_of_nodup_map hpositions hleft hright ?_
  have hledger : left.ledgerID = right.ledgerID := by
    have hleftID : left.ledgerID = ledgerID := by simpa using (List.mem_filter.mp hleft).2
    have hrightID : right.ledgerID = ledgerID := by simpa using (List.mem_filter.mp hright).2
    rw [hleftID, hrightID]
  exact Prod.ext hledger (UInt64.toNat_inj.mp hsequence)

theorem nodup_ledgerDigests (table : Table) (ledgerID : LedgerID) :
    ((table.ledgerRows ledgerID).map Row.recordDigest).Nodup := by
  have hfiltered : ((table.rows.filter fun row => row.ledgerID = ledgerID).map
      Row.recordDigest).Nodup := table.digestPk.sublist (List.filter_sublist.map _)
  exact ((sortBy_perm _ _).map Row.recordDigest).nodup_iff.mpr hfiltered

theorem ledgerRows_add_of_ne (h : table.Admits row) (hne : row.ledgerID ≠ ledgerID) :
    (table.add row h).ledgerRows ledgerID = table.ledgerRows ledgerID := by
  simp [Table.ledgerRows, Table.add, List.filter_append, hne]

/-- A row past the end of its ledger is added at the end. -/
theorem ledgerRows_add_of_last (h : table.Admits row)
    (hlast : ∀ stored ∈ table.ledgerRows row.ledgerID,
      stored.sequenceNumber.toNat < row.sequenceNumber.toNat) :
    (table.add row h).ledgerRows row.ledgerID = table.ledgerRows row.ledgerID ++ [row] := by
  have hfilter : (table.add row h).rows.filter (fun other => other.ledgerID = row.ledgerID) =
      table.rows.filter (fun other => other.ledgerID = row.ledgerID) ++ [row] := by
    simp [Table.add, List.filter_append]
  rw [Table.ledgerRows, hfilter]
  refine sortBy_concat (nodup_ledgerSequences table row.ledgerID) ?_
  intro other hother
  exact hlast other ((mem_sortBy _).mpr hother)

/-! ### Tables that hold validated records -/

variable (platform) in
/-- The rows of a ledger are the given records, in order. -/
def Table.Holds (table : Table) (ledgerID : LedgerID) (chain : List (ValidatedRecord platform)) :
    Prop :=
  table.ledgerRows ledgerID = chain.map fun validated => rowOfRecord validated.record

section Holds

variable {chain : List (ValidatedRecord platform)}

theorem Table.Holds.ledgerID_eq (h : table.Holds platform ledgerID chain)
    {validated : ValidatedRecord platform} (hmem : validated ∈ chain) :
    validated.record.event.ledgerID = ledgerID := by
  have hrow : rowOfRecord validated.record ∈ table.ledgerRows ledgerID := by
    rw [h]
    exact List.mem_map_of_mem hmem
  exact (mem_ledgerRows.mp hrow).2

theorem holds_empty (ledgerID : LedgerID) : Table.empty.Holds platform ledgerID [] := rfl

/-- A record past the end of a chain is stored at its end. -/
theorem Table.Holds.add_last (h : table.Holds platform ledgerID chain)
    {validated : ValidatedRecord platform} (hledger : validated.record.event.ledgerID = ledgerID)
    (hlast : ∀ stored ∈ chain,
      stored.record.event.sequence.toNat < validated.record.event.sequence.toNat)
    (hadmits : table.Admits (rowOfRecord validated.record)) :
    (table.add (rowOfRecord validated.record) hadmits).Holds platform ledgerID
      (chain ++ [validated]) := by
  have hrows : table.ledgerRows (rowOfRecord validated.record).ledgerID =
      chain.map fun stored => rowOfRecord stored.record := by
    rw [show (rowOfRecord validated.record).ledgerID = ledgerID from hledger]
    exact h
  have hadded := ledgerRows_add_of_last hadmits (by
    intro stored hstored
    rw [hrows] at hstored
    obtain ⟨earlier, hearlier, rfl⟩ := List.mem_map.mp hstored
    exact hlast earlier hearlier)
  rw [hrows] at hadded
  rw [Table.Holds, List.map_append, List.map_singleton, ← hadded]
  exact congrArg _ hledger.symm

/-- Other ledgers do not see a new row. -/
theorem Table.Holds.add_other (h : table.Holds platform ledgerID chain)
    (hadmits : table.Admits row) (hne : row.ledgerID ≠ ledgerID) :
    (table.add row hadmits).Holds platform ledgerID chain := by
  rw [Table.Holds, ledgerRows_add_of_ne hadmits hne]
  exact h

/-- A validated record passes the column checks. -/
theorem bytesBound_rowOfRecord (hcbor : platform.cbor.Conforms)
    (validated : ValidatedRecord platform) : (rowOfRecord validated.record).BytesBound :=
  ⟨Nat.one_le_iff_ne_zero.mpr (validated.spec.bytes_ne_empty hcbor), validated.spec.outerBound⟩

theorem numericRange_rowOfRecord (validated : ValidatedRecord platform) :
    (rowOfRecord validated.record).NumericRange := by
  obtain ⟨wire, hvalid, -, -, hevent⟩ := validateEventStructure_eq_ok validated.spec.event
  unfold Row.NumericRange rowOfRecord
  rw [hevent]
  exact ⟨hvalid.eventKind, hvalid.payloadVersion, hvalid.sequence⟩

/-- The first record of a database. -/
theorem admits_empty (hcbor : platform.cbor.Conforms) {validated : ValidatedRecord platform}
    (hfirst : validated.record.event.predecessor = none) :
    Table.empty.Admits (rowOfRecord validated.record) where
  bytesBound := bytesBound_rowOfRecord hcbor validated
  numericRange := numericRange_rowOfRecord validated
  digest stored hstored := by cases hstored
  position stored hstored := by cases hstored
  predecessor previous hprevious := by
    rw [show (rowOfRecord validated.record).previousRecordDigest = none from hfirst] at hprevious
    cases hprevious

/-- A stored row is that of some record of the chain. -/
theorem Table.Holds.exists_of_mem (h : table.Holds platform ledgerID chain)
    (hmem : row ∈ table.rows) (hledger : row.ledgerID = ledgerID) :
    ∃ validated ∈ chain, rowOfRecord validated.record = row := by
  have hrow : row ∈ table.ledgerRows ledgerID := mem_ledgerRows.mpr ⟨hmem, hledger⟩
  rw [h] at hrow
  exact List.mem_map.mp hrow

/-- `Head` answers from the last row alone. -/
theorem head_of_last {last : ValidatedRecord platform}
    (h : (table.ledgerRows ledgerID).getLast? = some (rowOfRecord last.record))
    (hbytes : last.record.bytes.length ≠ 0) :
    head platform table ledgerID = .ok (chainStateFromRecord last.record) := by
  have hledger : last.record.event.ledgerID = ledgerID :=
    (mem_ledgerRows.mp (List.mem_of_getLast? h)).2
  simp only [head, h, rowOfRecord, last.valid, mapError_ok, ok_bind]
  rw [failIf_neg, ok_bind]
  · rfl
  · rw [chainStateFromRecord_of_nonempty hbytes]
    simp [hledger]

theorem Table.Holds.head_eq_last (h : table.Holds platform ledgerID chain)
    (hbytes : ∀ validated ∈ chain, validated.record.bytes.length ≠ 0) :
    head platform table ledgerID =
      .ok (chainStateAfter (chain.map ValidatedRecord.record)) := by
  rcases hlast : chain.getLast? with _ | last
  · rw [List.getLast?_eq_none_iff] at hlast
    subst hlast
    rw [head, h]
    rfl
  · have hrow : (table.ledgerRows ledgerID).getLast? = some (rowOfRecord last.record) := by
      rw [h, List.getLast?_map, hlast]
      rfl
    rw [head_of_last hrow (hbytes last (List.mem_of_getLast? hlast)), chainStateAfter,
      List.getLast?_map, hlast]
    rfl

/-- **`Head` is the fold.**  For a ledger whose records form a chain, the state
read off the last row is the one chain validation ends in. -/
theorem Table.Holds.head_eq (h : table.Holds platform ledgerID chain)
    (hlegal : LegalChain platform (chain.map ValidatedRecord.record)) :
    head platform table ledgerID =
      .ok (chainStateAfter (chain.map ValidatedRecord.record)) := by
  apply h.head_eq_last
  intro validated hvalidated
  exact hlegal.bytes_ne_empty validated.record (List.mem_map_of_mem hvalidated)

/-- The bytes of a row determine the record. -/
theorem rowOfRecord_injective :
    Function.Injective fun validated : ValidatedRecord platform =>
      rowOfRecord validated.record := by
  intro left right hrow
  have hbytes : left.record.bytes = right.record.bytes := congrArg Row.recordBytes hrow
  have hvalid := left.valid
  rw [hbytes, right.valid] at hvalid
  exact ValidatedRecord.ext (Except.ok.inj hvalid).symm

theorem Table.Holds.unique {other : List (ValidatedRecord platform)}
    (h : table.Holds platform ledgerID chain) (hother : table.Holds platform ledgerID other) :
    chain = other :=
  List.map_injective_iff.mpr rowOfRecord_injective (h.symm.trans hother)

theorem Table.Holds.nodup_digests (h : table.Holds platform ledgerID chain) :
    ((chain.map ValidatedRecord.record).map StructuralRecord.recordDigest).Nodup := by
  have hnodup := nodup_ledgerDigests table ledgerID
  rw [h, List.map_map] at hnodup
  rw [List.map_map]
  exact hnodup

variable (platform) in
/-- A row whose columns and bytes are those of a validated record. -/
def Authentic (row : Row) : Prop :=
  ∃ validated : ValidatedRecord platform, row = rowOfRecord validated.record

theorem authentic_empty : ∀ row ∈ Table.empty.rows, Authentic platform row := by
  intro row hrow
  cases hrow

/-- A ledger whose rows are records holds some list of them. -/
theorem exists_holds (h : ∀ row ∈ table.rows, row.ledgerID = ledgerID → Authentic platform row) :
    ∃ chain, table.Holds platform ledgerID chain := by
  have hrange : table.ledgerRows ledgerID ∈ Set.range
      (List.map fun validated : ValidatedRecord platform => rowOfRecord validated.record) := by
    rw [Set.range_list_map]
    intro row hrow
    obtain ⟨hmem, hledger⟩ := mem_ledgerRows.mp hrow
    obtain ⟨validated, rfl⟩ := h row hmem hledger
    exact ⟨validated, rfl⟩
  obtain ⟨chain, hchain⟩ := hrange
  exact ⟨chain, hchain.symm⟩

/-- A database with nothing but the golden genesis record in it. -/
theorem exists_goldenLedger (hcbor : platform.cbor.Conforms) :
    ∃ (table : Table) (validated : ValidatedRecord platform),
      table.Holds platform goldenGenesisFields.ledgerID [validated] ∧
      LegalChain platform [validated.record] ∧
      head platform table goldenGenesisFields.ledgerID =
        .ok ⟨true, goldenGenesisFields.ledgerID, 1, validated.record.recordDigest⟩ := by
  obtain ⟨validated, hfields⟩ := exists_validatedRecord hcbor goldenGenesisFields_inDomain
  have hevent := congrArg RecordFields.toEventFields hfields
  have hledger : validated.record.event.ledgerID = goldenGenesisFields.ledgerID :=
    congrArg EventFields.ledgerID hevent
  have hsequence : validated.record.event.sequence = 1 := congrArg EventFields.sequence hevent
  have hlegal := legalChain_singleton hcbor hevent
  have hholds := (holds_empty goldenGenesisFields.ledgerID).add_last hledger (by simp)
    (admits_empty hcbor (congrArg EventFields.previousRecordDigest hevent))
  refine ⟨_, validated, hholds, hlegal, ?_⟩
  rw [hholds.head_eq hlegal, ← hledger, ← hsequence]
  exact congrArg _ (chainStateFromRecord_of_nonempty (validated.spec.bytes_ne_empty hcbor))

theorem scanRow_rowOfRecord {validated : ValidatedRecord platform}
    (h : validated.record.event.ledgerID = ledgerID) :
    scanRow platform ledgerID (rowOfRecord validated.record) = .ok validated.record := by
  simp only [scanRow, rowOfRecord, validated.valid, mapError_ok, ok_bind]
  rw [failIf_neg (not_not.mpr h), ok_bind]
  rfl

/-- A stored record is read back by its digest. -/
theorem record_of_row {validated : ValidatedRecord platform}
    (hrow : rowOfRecord validated.record ∈ table.rows) :
    record platform table validated.record.recordDigest = .ok validated.record := by
  have hfind : table.rows.find? (fun row => row.recordDigest = validated.record.recordDigest) =
      some (rowOfRecord validated.record) := by
    rcases hfound : table.rows.find? (fun row =>
        row.recordDigest = validated.record.recordDigest) with _ | row
    · have hnone := List.find?_eq_none.mp hfound _ hrow
      exact absurd (decide_eq_true rfl) hnone
    · have hdigest : row.recordDigest = validated.record.recordDigest := by
        simpa using List.find?_some hfound
      rw [hfound, List.inj_on_of_nodup_map table.digestPk (List.mem_of_find?_eq_some hfound) hrow
        hdigest]
  simp only [record, hfind, rowOfRecord, validated.valid, mapError_ok, ok_bind]
  rw [failIf_neg (not_not.mpr rfl), ok_bind]
  rfl

/-- A scan returns the records from the given sequence on, up to the limit. -/
theorem Table.Holds.scanRecords_eq (h : table.Holds platform ledgerID chain)
    (fromSequence : UInt64) {limit : Int} (hlimit : 0 < limit) :
    scanRecords platform table ledgerID fromSequence limit =
      .ok (((chain.map ValidatedRecord.record).filter
        fun record => fromSequence ≤ record.event.sequence).take limit.toNat) := by
  rw [scanRecords, if_neg (by omega), h, List.filter_map, List.filter_map, ← List.map_take,
    ← List.map_take]
  refine mapM_map_eq_ok ?_
  intro validated hvalidated
  have hmem := List.mem_of_mem_filter (List.mem_of_mem_take hvalidated)
  exact scanRow_rowOfRecord (h.ledgerID_eq hmem)

end Holds

end AttributionChain.Store
