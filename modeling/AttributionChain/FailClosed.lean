import AttributionChain.PagedReplay

/-!
# Reading a table that anyone may have written

The constraints of `ledger_record` say nothing about what the bytes of a row
decode to, so a row may hold garbage, or the bytes of another record than its
columns promise.  Rows are found and ordered by those columns.  What a read
returns is nevertheless vouched for by the bytes alone.

`Applied` is the invariant of a replay: the graph is what a list of stored,
validated records makes of a fresh one, and the count is the length of that list.
Each page that does not end the replay applies a record.  The records applied have
distinct sequence numbers, so no row is applied twice, and the rows of the table
bound the number of pages (`Applied.length_le`).
-/

namespace AttributionChain.Projector

open Ledger Store AttributionChain.Graph

variable {platform : Platform} {table : Table} {ledgerID : LedgerID} {graph : Graph}
  {progress : ReplayProgress} {record : StructuralRecord}

/-! ### Single reads -/

theorem valid_of_record {digest : Digest} (h : Store.record platform table digest = .ok record) :
    validateRecordStructure platform record.bytes = .ok record ∧ record.recordDigest = digest := by
  unfold Store.record at h
  split at h
  · cases h
  · simp only [bind_eq_ok, mapError_eq_ok, failIf_eq_ok, not_not, exists_const] at h
    obtain ⟨stored, hvalid, hdigest, hreturn⟩ := h
    cases hreturn
    exact ⟨(ValidatedRecord.ofValidation hvalid).valid, hdigest⟩

variable (platform table) in
/-- The record is what some stored bytes validate to. -/
def StoredBytes (record : StructuralRecord) : Prop :=
  ∃ row ∈ table.rows, validateRecordStructure platform row.recordBytes = .ok record

theorem storedBytes_of_head {state : ChainState} (h : head platform table ledgerID = .ok state)
    (hinitialized : state.initialized = true) :
    ∃ record, StoredBytes platform table record ∧ record.event.ledgerID = ledgerID ∧
      record.event.sequence = state.lastSequence ∧
      record.recordDigest = state.lastRecordDigest := by
  unfold head at h
  split at h
  · cases h
    cases hinitialized
  · rename_i row hrow
    have hmem := (mem_ledgerRows.mp (List.mem_of_getLast? hrow)).1
    simp only [bind_eq_ok, mapError_eq_ok, failIf_eq_ok, not_or, not_not, exists_const] at h
    obtain ⟨record, hvalid, ⟨-, hledger⟩, hreturn⟩ := h
    cases hreturn
    have hbytes : record.bytes.length ≠ 0 := by
      intro hempty
      rw [chainStateFromRecord, if_pos hempty] at hinitialized
      cases hinitialized
    rw [chainStateFromRecord_of_nonempty hbytes] at hledger ⊢
    exact ⟨record, ⟨row, hmem, hvalid⟩, hledger, rfl, rfl⟩

theorem storedBytes_of_scanRecords {start : UInt64} {limit : Int} {records : List StructuralRecord}
    (h : scanRecords platform table ledgerID start limit = .ok records) :
    ∀ record ∈ records, StoredBytes platform table record := by
  intro record hrecord
  unfold scanRecords at h
  split_ifs at h
  · cases h
    cases hrecord
  · obtain ⟨row, hrow, hscanned⟩ := exists_mem_of_mapM_eq_ok h hrecord
    have hmem := (mem_ledgerRows.mp (List.mem_of_mem_filter (List.mem_of_mem_take hrow))).1
    simp only [scanRow, bind_eq_ok, mapError_eq_ok] at hscanned
    obtain ⟨validated, hvalid, -, -, hreturn⟩ := hscanned
    cases hreturn
    exact ⟨row, hmem, hvalid⟩

/-! ### The whole replay -/

variable (platform) in
/-- What the replay has done to a fresh graph. -/
structure Applied (table : Table) (ledgerID : LedgerID) (progress : ReplayProgress)
    (applied : List StructuralRecord) : Prop where
  stored : ∀ record ∈ applied, StoredBytes platform table record
  graph : applyRecords platform (newGraph ledgerID) applied = (progress.1, none)
  count : progress.2 = applied.length

namespace Applied

variable {applied : List StructuralRecord}

theorem nil (table : Table) (ledgerID : LedgerID) :
    Applied platform table ledgerID (newGraph ledgerID, 0) [] :=
  ⟨by simp, rfl, rfl⟩

theorem sequence_pos (h : Applied platform table ledgerID progress applied) :
    ∀ record ∈ applied, 0 < record.event.sequence.toNat := by
  intro record hrecord
  obtain ⟨row, -, hvalid⟩ := h.stored record hrecord
  exact (ValidatedRecord.ofValidation hvalid).sequence_pos

/-- The records applied are numbered from one. -/
theorem positions (h : Applied platform table ledgerID progress applied) :
    progress.1.ledgerID = ledgerID ∧ progress.1.lastSequence.toNat = applied.length ∧
      (∀ record ∈ applied, record.event.ledgerID = ledgerID) ∧
      (applied.map fun record => record.event.sequence.toNat) = List.range' 1 applied.length := by
  obtain ⟨hledger, hlast, hposition⟩ := applyRecords_positions h.sequence_pos h.graph
  have hzero : (newGraph ledgerID).lastSequence.toNat = 0 := rfl
  rw [hzero] at hlast hposition
  refine ⟨hledger, by omega, ?_, ?_⟩
  · intro record hrecord
    obtain ⟨i, hi⟩ := List.mem_iff_getElem?.mp hrecord
    exact (hposition i record hi).1
  · refine List.ext_getElem (by simp) ?_
    intro i hi hrange
    rw [List.length_map] at hi
    have hsequence := (hposition i _ (List.getElem?_eq_getElem hi)).2
    simp only [List.getElem_map, List.getElem_range']
    omega

/-- No row is applied twice. -/
theorem length_le (h : Applied platform table ledgerID progress applied) :
    applied.length ≤ table.rows.length := by
  have hdistinct : (applied.map StructuralRecord.bytes).Nodup := by
    obtain ⟨-, -, -, hsequences⟩ := h.positions
    have hnodup : (applied.map fun record => record.event.sequence.toNat).Nodup := by
      rw [hsequences]
      exact List.nodup_range'
    rw [List.nodup_map_iff_inj_on hnodup.of_map]
    intro left hleft right hright hbytes
    -- the bytes determine the record
    obtain ⟨_, -, hleftValid⟩ := h.stored left hleft
    obtain ⟨_, -, hrightValid⟩ := h.stored right hright
    rw [← bytes_of_validateRecordStructure hleftValid, hbytes,
      bytes_of_validateRecordStructure hrightValid, hrightValid] at hleftValid
    exact (Except.ok.inj hleftValid).symm
  have hsubset : applied.map StructuralRecord.bytes ⊆ table.rows.map Row.recordBytes := by
    intro bytes hbytes
    obtain ⟨record, hrecord, rfl⟩ := List.mem_map.mp hbytes
    obtain ⟨row, hrow, hvalid⟩ := h.stored record hrecord
    rw [bytes_of_validateRecordStructure hvalid]
    exact List.mem_map_of_mem hrow
  have hlength := (List.subperm_of_subset hdistinct hsubset).length_le
  rwa [List.length_map, List.length_map] at hlength

theorem append (h : Applied platform table ledgerID progress applied)
    {done : List StructuralRecord} {next : ReplayProgress}
    (hstored : ∀ record ∈ done, StoredBytes platform table record)
    (hdone : applyRecords platform progress.1 done = (next.1, none))
    (hcount : next.2 = progress.2 + done.length) :
    Applied platform table ledgerID next (applied ++ done) := by
  refine ⟨?_, rangeUntilError_append_eq_ok.mpr ⟨progress.1, h.graph, hdone⟩, ?_⟩
  · intro record hrecord
    rcases List.mem_append.mp hrecord with hold | hnew
    · exact h.stored record hold
    · exact hstored record hnew
  · rw [hcount, h.count, List.length_append]

/-- A round either ends the replay or applies a page and goes on. -/
theorem round_cases (h : Applied platform table ledgerID progress applied) (batchSize : Int) :
    (∃ final err more, Applied platform table ledgerID final (applied ++ more) ∧
      ∀ fuel round, replayLoop platform (.answered fun _ => table) batchSize (fuel + 1) round
        progress = some (final, err)) ∨
    ∃ next more, more ≠ [] ∧ Applied platform table ledgerID next (applied ++ more) ∧
      ∀ fuel round, replayLoop platform (.answered fun _ => table) batchSize (fuel + 1) round
        progress =
          replayLoop platform (.answered fun _ => table) batchSize fuel (round + 1) next := by
  have hnothing : Applied platform table ledgerID progress (applied ++ []) := by
    rwa [List.append_nil]
  simp only [replayLoop, Scans.answered, query, Bool.false_eq_true, if_false]
  rcases hscan : scanRecords platform table progress.1.ledgerID (progress.1.lastSequence + 1)
    batchSize with failure | records
  · exact .inl ⟨progress, _, [], hnothing, fun _ _ => rfl⟩
  · by_cases hempty : records.length = 0
    · exact .inl ⟨progress, none, [], hnothing, fun _ _ => if_pos hempty⟩
    · simp only [Except.mapError, if_neg hempty]
      rcases hpage : rangeUntilError (applyCounted platform) progress records with ⟨next, err⟩
      obtain ⟨count, hcount, hpart, -⟩ := appliesUntil_of_counted hpage
      have hstored : ∀ record ∈ records.take count, StoredBytes platform table record :=
        fun record hrecord => storedBytes_of_scanRecords hscan record (List.mem_of_mem_take hrecord)
      have happlied := h.append hstored hpart.applied (by rw [hpart.length_take, hcount])
      rcases err with _ | cause
      · by_cases hshort : (records.length : Int) < batchSize
        · exact .inl ⟨next, none, _, happlied, fun _ _ => if_pos hshort⟩
        · -- a full page, all of it applied
          refine .inr ⟨next, _, ?_, happlied, fun _ _ => if_neg hshort⟩
          rw [hpart.complete rfl, List.take_length]
          exact fun hnil => hempty (congrArg List.length hnil)
      · exact .inl ⟨next, some cause, _, happlied, fun _ _ => rfl⟩

/-- **The replay ends.**  The rows that are left to apply bound the rounds. -/
theorem replayLoop_ends (h : Applied platform table ledgerID progress applied) (batchSize : Int)
    (round left : Nat) (hleft : table.rows.length ≤ applied.length + left) :
    ∃ final err more, Applied platform table ledgerID final (applied ++ more) ∧
      ∀ fuel, left < fuel →
        replayLoop platform (.answered fun _ => table) batchSize fuel round progress =
          some (final, err) := by
  induction left generalizing round progress applied with
  | zero =>
    rcases h.round_cases batchSize with
      ⟨final, err, more, happlied, hround⟩ | ⟨next, more, hmore, hnext, -⟩
    · refine ⟨final, err, more, happlied, ?_⟩
      intro fuel hfuel
      obtain ⟨fuel, rfl⟩ := Nat.exists_eq_add_of_lt hfuel
      rw [Nat.zero_add]
      exact hround fuel round
    · -- every row has been applied already
      have hlength := hnext.length_le
      have hpos := List.length_pos_of_ne_nil hmore
      rw [List.length_append] at hlength
      omega
  | succ left ih =>
    rcases h.round_cases batchSize with
      ⟨final, err, more, happlied, hround⟩ | ⟨next, more, hmore, hnext, hround⟩
    · refine ⟨final, err, more, happlied, ?_⟩
      intro fuel hfuel
      obtain ⟨fuel, rfl⟩ := Nat.exists_eq_add_of_lt hfuel
      exact hround _ round
    · have hpos := List.length_pos_of_ne_nil hmore
      have hlength : (applied ++ more).length = applied.length + more.length := List.length_append
      obtain ⟨final, err, rest, happlied, hloop⟩ := ih hnext (round + 1) (by omega)
      refine ⟨final, err, more ++ rest, by rwa [← List.append_assoc], ?_⟩
      intro fuel hfuel
      cases fuel with
      | zero => omega
      | succ fuel =>
        rw [hround]
        exact hloop fuel (by omega)

end Applied

/-- **Reads fail closed.**  Whatever a table within the constraints holds: a record
that is read by its digest validates and has that digest; an initialized head is that
of stored bytes which validate to a record of the ledger; and a replay into a fresh
graph ends, with an error or without, having applied stored, validated records of the
ledger, numbered from one, as many as it counts and as the graph's watermark says.  It
counts no row twice, so the count fits the source's `int` if the number of rows does. -/
theorem reads_fail_closed (platform : Platform) (table : Table) :
    (∀ digest record, Store.record platform table digest = .ok record →
      validateRecordStructure platform record.bytes = .ok record ∧
        record.recordDigest = digest) ∧
    (∀ ledgerID state, head platform table ledgerID = .ok state → state.initialized = true →
      ∃ row ∈ table.rows, ∃ record,
        validateRecordStructure platform row.recordBytes = .ok record ∧
        record.event.ledgerID = ledgerID ∧ record.event.sequence = state.lastSequence ∧
        record.recordDigest = state.lastRecordDigest) ∧
    ∀ ledgerID batchSize, ∃ (graph : Graph) (count : Nat) (err : Option ReplayError)
      (applied : List StructuralRecord),
      (∀ fuel, table.rows.length < fuel →
        replayFromStore platform (fun _ => table) batchSize fuel (newGraph ledgerID) =
          some ((graph, count), err)) ∧
      applyRecords platform (newGraph ledgerID) applied = (graph, none) ∧
      (∀ record ∈ applied,
        (∃ row ∈ table.rows, validateRecordStructure platform row.recordBytes = .ok record) ∧
        record.event.ledgerID = ledgerID) ∧
      (applied.map fun record => record.event.sequence.toNat) = List.range' 1 count ∧
      graph.lastSequence.toNat = count ∧ count ≤ table.rows.length := by
  refine ⟨fun digest record => valid_of_record, ?_, ?_⟩
  · intro ledgerID state hhead hinitialized
    obtain ⟨record, ⟨row, hrow, hvalid⟩, hfields⟩ := storedBytes_of_head hhead hinitialized
    exact ⟨row, hrow, record, hvalid, hfields⟩
  · intro ledgerID batchSize
    have hnil : Applied platform table ledgerID (newGraph ledgerID, 0) [] := .nil table ledgerID
    obtain ⟨⟨graph, count⟩, err, applied, happlied, hloop⟩ :=
      hnil.replayLoop_ends (if batchSize ≤ 0 then 256 else batchSize) 0 table.rows.length (by simp)
    rw [List.nil_append] at happlied
    obtain ⟨-, hlast, hledger, hsequences⟩ := happlied.positions
    have hcount : count = applied.length := happlied.count
    refine ⟨graph, count, err, applied, hloop, happlied.graph, ?_, ?_, ?_, ?_⟩
    · intro record hrecord
      exact ⟨happlied.stored record hrecord, hledger record hrecord⟩
    · rw [hsequences, hcount]
    · rw [hcount]
      exact hlast
    · rw [hcount]
      exact happlied.length_le

end AttributionChain.Projector
