import AttributionChain.AppendLog
import AttributionChain.LedgerStore

/-!
# The store is an append-only log

`recordScheme` is the log that the table stands for: validated records,
identified by digest, placed by ledger and sequence number, naming their
predecessor.  `Records` relates a table to it.  `Records.append` is the step of the
refinement: PostgreSQL's order of constraint checks is the log's order of refusals.
The reads of the store are then reads of the log, each by a lemma of its own.
-/

namespace AttributionChain.Store

open Ledger AppendLog

variable (platform : Platform)

/-- The log of ledger records. -/
def recordScheme : Scheme (ValidatedRecord platform) Digest (LedgerID × UInt64) where
  id validated := validated.record.recordDigest
  position validated := (validated.record.event.ledgerID, validated.record.event.sequence)
  parent validated := validated.record.event.predecessor

/-- The error that `Append` reports a refusal with. -/
def refusalError : Refusal → AppendError
  | .duplicate => .duplicateRecord
  | .taken => .chainHeadMoved
  | .orphan => .unknownPredecessor

/-- A table filled with validated records. -/
def Table.Records (table : Table) (log : List (ValidatedRecord platform)) : Prop :=
  table.rows = log.map fun validated => rowOfRecord validated.record

/-- The records of one ledger, in ascending sequence order. -/
def ledgerLog (log : List (ValidatedRecord platform)) (ledgerID : LedgerID) :
    List (ValidatedRecord platform) :=
  sortBy (fun validated => validated.record.event.sequence.toNat)
    (log.filter fun validated => validated.record.event.ledgerID = ledgerID)

variable {platform} {table : Table} {log : List (ValidatedRecord platform)}
  {validated : ValidatedRecord platform} {ledgerID : LedgerID}

/-! ### Writing -/

theorem records_empty : Table.empty.Records platform [] := rfl

theorem Table.Records.authentic (h : table.Records platform log) :
    ∀ row ∈ table.rows, Authentic platform row := by
  intro row hrow
  rw [h] at hrow
  obtain ⟨validated, -, rfl⟩ := List.mem_map.mp hrow
  exact ⟨validated, rfl⟩

theorem Table.Records.exists_row_iff (h : table.Records platform log) {good : Row → Prop} :
    (∃ row ∈ table.rows, good row) ↔ ∃ stored ∈ log, good (rowOfRecord stored.record) := by
  rw [h]
  constructor
  · rintro ⟨row, hrow, hgood⟩
    obtain ⟨stored, hstored, rfl⟩ := List.mem_map.mp hrow
    exact ⟨stored, hstored, hgood⟩
  · rintro ⟨stored, hstored, hgood⟩
    exact ⟨_, List.mem_map_of_mem hstored, hgood⟩

theorem Table.Records.add (h : table.Records platform log)
    (hadmits : table.Admits (rowOfRecord validated.record)) :
    (table.add (rowOfRecord validated.record) hadmits).Records platform (log ++ [validated]) := by
  unfold Table.Records
  rw [List.map_append, List.map_singleton, ← h]
  rfl

/-- PostgreSQL looks for the predecessor when the new row is already there, which
makes no difference unless the record names itself. -/
theorem Table.Records.predecessorIn_iff (h : table.Records platform log)
    (hself : validated.record.event.predecessor ≠ some validated.record.recordDigest) :
    (rowOfRecord validated.record).PredecessorIn (table.rows ++ [rowOfRecord validated.record]) ↔
      ¬ ∃ parent ∈ (recordScheme platform).parent validated,
        ∀ stored ∈ log, (recordScheme platform).id stored ≠ parent := by
  push Not
  apply forall₂_congr
  intro parent hparent
  rw [h]
  constructor
  · rintro ⟨row, hrow, hdigest⟩
    rcases List.mem_append.mp hrow with hold | hnew
    · obtain ⟨stored, hstored, rfl⟩ := List.mem_map.mp hold
      exact ⟨stored, hstored, hdigest⟩
    · rw [List.mem_singleton.mp hnew] at hdigest
      exact absurd (hparent.trans (congrArg some hdigest.symm)) hself
  · rintro ⟨stored, hstored, hdigest⟩
    exact ⟨_, List.mem_append_left _ (List.mem_map_of_mem hstored), hdigest⟩

/-- **One append.**  The table takes or refuses a record as the log does. -/
theorem Table.Records.append (hcbor : platform.cbor.Conforms) (h : table.Records platform log)
    (hself : validated.record.event.predecessor ≠ some validated.record.recordDigest) :
    (append table validated.record).1.Records platform
        ((recordScheme platform).append log validated).1 ∧
      (append table validated.record).2 =
        ((recordScheme platform).append log validated).2.map refusalError := by
  have hdigest : (∃ stored ∈ table.rows, stored.recordDigest = validated.record.recordDigest) ↔
      ∃ stored ∈ log, (recordScheme platform).id stored = (recordScheme platform).id validated :=
    h.exists_row_iff
  have hposition : (∃ stored ∈ table.rows,
      stored.position = (rowOfRecord validated.record).position) ↔
      ∃ stored ∈ log,
        (recordScheme platform).position stored = (recordScheme platform).position validated :=
    h.exists_row_iff
  have hparent := h.predecessorIn_iff hself
  unfold Scheme.append
  rcases append_cases table validated.record with ⟨hchecks, -⟩ | ⟨hduplicate, happend⟩ |
    ⟨⟨hnew, htaken⟩, happend⟩ | ⟨⟨hnew, hfree, horphan⟩, happend⟩ | ⟨hadmits, happend⟩
  · exact absurd ⟨bytesBound_rowOfRecord hcbor validated, numericRange_rowOfRecord validated⟩
      hchecks
  · rw [happend, if_pos (hdigest.mp hduplicate)]
    exact ⟨h, rfl⟩
  · rw [happend, if_neg (hdigest.not.mp hnew), if_pos (hposition.mp htaken)]
    exact ⟨h, rfl⟩
  · rw [happend, if_neg (hdigest.not.mp hnew), if_neg (hposition.not.mp hfree),
      if_pos (not_not.mp (hparent.not.mp horphan))]
    exact ⟨h, rfl⟩
  · have hnew : ¬ ∃ stored ∈ table.rows, stored.recordDigest = validated.record.recordDigest :=
      fun ⟨stored, hstored, hsame⟩ => hadmits.digest stored hstored hsame
    have hfree : ¬ ∃ stored ∈ table.rows,
        stored.position = (rowOfRecord validated.record).position :=
      fun ⟨stored, hstored, hsame⟩ => hadmits.position stored hstored hsame
    rw [happend, if_neg (hdigest.not.mp hnew), if_neg (hposition.not.mp hfree),
      if_neg (hparent.mp hadmits.predecessor)]
    exact ⟨h.add hadmits, rfl⟩

/-! ### Reading -/

theorem Table.Records.holds (h : table.Records platform log) (ledgerID : LedgerID) :
    table.Holds platform ledgerID (ledgerLog platform log ledgerID) := by
  unfold Table.Holds Table.ledgerRows ledgerLog
  rw [h, List.filter_map, sortBy_map]
  rfl

theorem mem_ledgerLog : validated ∈ ledgerLog platform log ledgerID ↔
    validated ∈ log ∧ validated.record.event.ledgerID = ledgerID := by
  simp [ledgerLog]

/-- A stored record is read back by its digest. -/
theorem Table.Records.record_of_mem (h : table.Records platform log) (hmem : validated ∈ log) :
    record platform table validated.record.recordDigest = .ok validated.record := by
  apply record_of_row
  rw [h]
  exact List.mem_map_of_mem hmem

/-- A digest that was not stored is not found. -/
theorem Table.Records.record_of_not_mem (h : table.Records platform log) {digest : Digest}
    (hunknown : ∀ stored ∈ log, stored.record.recordDigest ≠ digest) :
    record platform table digest = .error .recordNotFound := by
  have hfind : table.rows.find? (fun row => row.recordDigest = digest) = none := by
    rw [List.find?_eq_none, h]
    intro row hrow
    obtain ⟨stored, hstored, rfl⟩ := List.mem_map.mp hrow
    exact fun hfound => hunknown stored hstored (of_decide_eq_true hfound)
  rw [record, hfind]

theorem Table.Records.head_eq (hcbor : platform.cbor.Conforms) (h : table.Records platform log)
    (ledgerID : LedgerID) :
    head platform table ledgerID =
      .ok (chainStateAfter ((ledgerLog platform log ledgerID).map ValidatedRecord.record)) :=
  (h.holds ledgerID).head_eq_last fun stored _ => stored.spec.bytes_ne_empty hcbor

theorem Table.Records.head_of_none (hcbor : platform.cbor.Conforms)
    (h : table.Records platform log)
    (hnone : ∀ stored ∈ log, stored.record.event.ledgerID ≠ ledgerID) :
    head platform table ledgerID = .ok .empty := by
  have hempty : ledgerLog platform log ledgerID = [] := by
    rw [List.eq_nil_iff_forall_not_mem]
    intro stored hstored
    obtain ⟨hmem, hledger⟩ := mem_ledgerLog.mp hstored
    exact hnone stored hmem hledger
  rw [h.head_eq hcbor, hempty]
  rfl

theorem Table.Records.nodup_sequences (h : table.Records platform log) (ledgerID : LedgerID) :
    ((log.filter fun stored => stored.record.event.ledgerID = ledgerID).map
      fun stored => stored.record.event.sequence.toNat).Nodup := by
  have hnodup := nodup_ledgerSequences table ledgerID
  rw [h, List.filter_map, List.map_map] at hnodup
  exact hnodup

/-- `Head` is the record with the largest sequence number. -/
theorem Table.Records.head_of_largest (hcbor : platform.cbor.Conforms)
    (h : table.Records platform log) (hmem : validated ∈ log)
    (hlargest : ∀ other ∈ log, other.record.event.ledgerID = validated.record.event.ledgerID →
      other.record.event.sequence.toNat ≤ validated.record.event.sequence.toNat) :
    head platform table validated.record.event.ledgerID =
      .ok (chainStateFromRecord validated.record) := by
  rw [h.head_eq hcbor]
  have hin : validated ∈ ledgerLog platform log validated.record.event.ledgerID :=
    mem_ledgerLog.mpr ⟨hmem, rfl⟩
  have hlast := List.getLast?_eq_some_getLast (List.ne_nil_of_mem hin)
  obtain ⟨hlastLog, hlastLedger⟩ := mem_ledgerLog.mp (List.getLast_mem (List.ne_nil_of_mem hin))
  -- the last one is no smaller than the record, and nothing is larger than it
  have hle := key_le_of_getLast? _ ((mem_sortBy _).mp hin) hlast
  have hge := hlargest _ hlastLog hlastLedger
  have hsame := eq_of_key_eq (sortBy_strict (h.nodup_sequences validated.record.event.ledgerID)) hin
    (List.getLast_mem (List.ne_nil_of_mem hin)) (Nat.le_antisymm hle hge)
  rw [chainStateAfter, List.getLast?_map, hlast, ← hsame]
  rfl

/-- A scan pages through the records of a ledger. -/
theorem Table.Records.scanRecords_eq (h : table.Records platform log) (ledgerID : LedgerID)
    (fromSequence : UInt64) (limit : Int) :
    scanRecords platform table ledgerID fromSequence limit =
      .ok ((((ledgerLog platform log ledgerID).map ValidatedRecord.record).filter
        fun record => fromSequence ≤ record.event.sequence).take limit.toNat) := by
  by_cases hlimit : 0 < limit
  · exact (h.holds ledgerID).scanRecords_eq fromSequence hlimit
  · rw [scanRecords, if_pos (by omega), Int.toNat_of_nonpos (by omega), List.take_zero]

/-! ### The refinement -/

/-- `Append` called with a list of records, and what each call returns. -/
def appendAll (table : Table) (records : List (ValidatedRecord platform)) :
    Table × List (Option AppendError) :=
  serve (fun table validated => append table validated.record) table records

/-- Appending to a table is appending to the log that it stands for. -/
theorem Table.Records.appendAll (hcbor : platform.cbor.Conforms) (h : table.Records platform log)
    {records : List (ValidatedRecord platform)}
    (hself : ∀ validated ∈ records,
      validated.record.event.predecessor ≠ some validated.record.recordDigest) :
    (appendAll table records).1.Records platform
        (serve (recordScheme platform).append log records).1 ∧
      (appendAll table records).2 =
        (serve (recordScheme platform).append log records).2.map (Option.map refusalError) :=
  serve_simulates (Option.map refusalError)
    (fun validated hvalidated _ _ hrecords => hrecords.append hcbor (hself validated hvalidated)) h

/-- **The store refines an append-only log.**  Whatever validated records are
appended in whatever order, each call is answered as by the log and stores what the
log stores, and afterwards the three reads answer from the log.  No record may
contain its own digest, which would be a fixed point of SHA-256. -/
theorem store_refines_log (platform : Platform) (hcbor : platform.cbor.Conforms)
    (records : List (ValidatedRecord platform))
    (hself : ∀ validated ∈ records, validated.record.event.predecessor ≠
      some (digestRecordBody platform validated.record.recordBodyBytes))
    (table : Table) (errors : List (Option AppendError))
    (log : List (ValidatedRecord platform)) (refusals : List (Option Refusal))
    (hstore : appendAll .empty records = (table, errors))
    (hlog : serve (recordScheme platform).append [] records = (log, refusals)) :
    errors = refusals.map (Option.map refusalError) ∧
    table.rows = log.map (fun stored => rowOfRecord stored.record) ∧
    (∀ stored ∈ log, record platform table stored.record.recordDigest = .ok stored.record) ∧
    (∀ digest, (∀ stored ∈ log, stored.record.recordDigest ≠ digest) →
      record platform table digest = .error .recordNotFound) ∧
    (∀ ledgerID, (∀ stored ∈ log, stored.record.event.ledgerID ≠ ledgerID) →
      head platform table ledgerID = .ok .empty) ∧
    (∀ largest ∈ log, (∀ other ∈ log,
        other.record.event.ledgerID = largest.record.event.ledgerID →
        other.record.event.sequence.toNat ≤ largest.record.event.sequence.toNat) →
      head platform table largest.record.event.ledgerID =
        .ok (chainStateFromRecord largest.record)) ∧
    ∀ ledgerID fromSequence limit,
      scanRecords platform table ledgerID fromSequence limit =
        .ok ((((sortBy (fun stored => stored.record.event.sequence.toNat)
          (log.filter fun stored => stored.record.event.ledgerID = ledgerID)).map
            ValidatedRecord.record).filter
              fun record => fromSequence ≤ record.event.sequence).take limit.toNat) := by
  have hdigests : ∀ validated ∈ records,
      validated.record.event.predecessor ≠ some validated.record.recordDigest := by
    intro validated hvalidated
    rw [validated.spec.recordDigest]
    exact hself validated hvalidated
  obtain ⟨hrecords, herrors⟩ := Table.Records.appendAll hcbor records_empty hdigests
  rw [hstore, hlog] at hrecords herrors
  refine ⟨herrors, hrecords, ?_, ?_, ?_, ?_, hrecords.scanRecords_eq⟩
  · intro stored hstored
    exact hrecords.record_of_mem hstored
  · intro digest hunknown
    exact hrecords.record_of_not_mem hunknown
  · intro ledgerID hnone
    exact hrecords.head_of_none hcbor hnone
  · intro largest hlargest hmax
    exact hrecords.head_of_largest hcbor hlargest hmax

section Golden

variable (golden : GoldenLedger)

/-- No record of the golden ledger names itself. -/
theorem golden_self : ∀ validated ∈ golden.chain,
    validated.record.event.predecessor ≠ some validated.record.recordDigest := by
  have hnodup := golden.nodup_digests
  rw [golden.digests] at hnodup
  simp_all [GoldenLedger.chain, golden.endorsement_digest, golden.revocation_digest]

/-- The table with the first two records of the golden ledger. -/
def goldenTable : Table := (appendAll .empty [golden.genesis, golden.endorsement]).1

theorem records_goldenTable :
    (goldenTable golden).Records goldenPlatform [golden.genesis, golden.endorsement] := by
  have hself : ∀ validated ∈ [golden.genesis, golden.endorsement],
      validated.record.event.predecessor ≠ some validated.record.recordDigest := by
    intro validated hvalidated
    exact golden_self golden validated (List.mem_append_left [golden.revocation] hvalidated)
  obtain ⟨hrecords, -⟩ := Table.Records.appendAll goldenPlatform_conforms records_empty hself
  have hnodup := golden.nodup_digests
  rw [golden.digests] at hnodup
  have hlog : serve (recordScheme goldenPlatform).append []
      [golden.genesis, golden.endorsement] =
      ([golden.genesis, golden.endorsement], [none, none]) := by
    simp_all [serve, Scheme.append, recordScheme, golden.genesis_digest, golden.endorsement_digest]
  rwa [hlog] at hrecords

theorem records_append_revocation {table : Table}
    (h : table.Records goldenPlatform [golden.genesis, golden.endorsement]) :
    (append table golden.revocation.record).1.Records goldenPlatform golden.chain := by
  have hself := golden_self golden golden.revocation (by simp [GoldenLedger.chain])
  obtain ⟨hrecords, -⟩ := h.append goldenPlatform_conforms hself
  have hnodup := golden.nodup_digests
  rw [golden.digests] at hnodup
  have hlog : (recordScheme goldenPlatform).append [golden.genesis, golden.endorsement]
      golden.revocation = (golden.chain, none) := by
    simp_all [Scheme.append, recordScheme, GoldenLedger.chain, golden.genesis_digest,
      golden.endorsement_digest, golden.revocation_digest]
  rwa [hlog] at hrecords

end Golden

/-- An endorsement before its genesis record, the two in order, and the first again. -/
theorem goldenLedger_appended :
    ∃ (golden : GoldenLedger) (table : Table),
      appendAll .empty [golden.endorsement, golden.genesis, golden.endorsement, golden.genesis] =
        (table, [some .unknownPredecessor, none, none, some .duplicateRecord]) ∧
      table.rows = [rowOfRecord golden.genesis.record, rowOfRecord golden.endorsement.record] ∧
      record goldenPlatform table goldenGenesisDigest = .ok golden.genesis.record ∧
      record goldenPlatform table goldenRevocationDigest = .error .recordNotFound ∧
      head goldenPlatform table goldenGenesisFields.ledgerID =
        .ok (chainStateFromRecord golden.endorsement.record) ∧
      scanRecords goldenPlatform table goldenGenesisFields.ledgerID 2 1 =
        .ok [golden.endorsement.record] := by
  obtain ⟨golden⟩ := goldenLedger_evaluates
  have hnodup := golden.nodup_digests
  rw [golden.digests] at hnodup
  have hlog : serve (recordScheme goldenPlatform).append []
      [golden.endorsement, golden.genesis, golden.endorsement, golden.genesis] =
      ([golden.genesis, golden.endorsement], [some .orphan, none, none, some .duplicate]) := by
    simp_all [serve, Scheme.append, recordScheme, golden.genesis_digest, golden.endorsement_digest]
  rcases hstore : appendAll .empty
    [golden.endorsement, golden.genesis, golden.endorsement, golden.genesis] with ⟨table, errors⟩
  have hself : ∀ validated ∈
      [golden.endorsement, golden.genesis, golden.endorsement, golden.genesis],
      validated.record.event.predecessor ≠
        some (digestRecordBody goldenPlatform validated.record.recordBodyBytes) := by
    intro validated hvalidated
    rw [← validated.spec.recordDigest]
    apply golden_self golden
    simp only [List.mem_cons, List.not_mem_nil, or_false] at hvalidated
    rcases hvalidated with rfl | rfl | rfl | rfl <;> simp [GoldenLedger.chain]
  obtain ⟨herrors, hrows, hread, hmissing, -, hhead, hscan⟩ := store_refines_log goldenPlatform
    goldenPlatform_conforms _ hself table errors _ _ hstore hlog
  refine ⟨golden, table, hstore.trans (congrArg _ herrors), hrows, ?_, ?_, ?_, ?_⟩
  · have hgenesis := hread golden.genesis (by simp)
    rwa [golden.genesis_digest] at hgenesis
  · apply hmissing
    simp_all [golden.genesis_digest, golden.endorsement_digest]
  · have hlargest := hhead golden.endorsement (by simp) (by simp)
    rwa [golden.endorsement_values.1] at hlargest
  · rw [hscan]
    simp [sortBy]

end AttributionChain.Store
