import AttributionChain.Projector
import AttributionChain.StoreRefinement

/-!
# Replaying a ledger page by page

`ReplayFromStore` reads the ledger in pages that start after the graph's watermark,
while other writers may append.  A scan returns the records after the watermark
(`scan_eq_drop`), because the records that were applied are numbered 1, 2, … and
stay where they are (`take_of_grown`).  One round of the loop is `round_cases`;
`replayLoop_eq` is the whole loop.  It does what one pass does over the ledger as it
is at the last scan (`replay_paged`).
-/

namespace AttributionChain.Projector

open Ledger Store AttributionChain.Graph

variable {platform : Platform} {graph next final : Graph} {record : StructuralRecord}
  {table : Table} {ledgerID : LedgerID} {chain : List (ValidatedRecord platform)}

/-! ### Counting -/

/-- Counting does not change what a page does to the graph. -/
theorem applyCounted_eq_ok {records : List StructuralRecord} {applied count : Nat} :
    rangeUntilError (applyCounted platform) (graph, applied) records = ((final, count), none) ↔
      applyRecords platform graph records = (final, none) ∧ count = applied + records.length := by
  induction records generalizing graph applied with
  | nil => simp [applyRecords, Prod.ext_iff, eq_comm]
  | cons first rest ih =>
    rcases hfirst : applyRecord platform graph first with ⟨next, _ | err⟩
    · have hcounted : applyCounted platform (graph, applied) first =
          ((next, applied + 1), none) := by
        rw [applyCounted, hfirst]
      rw [rangeUntilError_cons_of_ok hcounted, ih, applyRecords, rangeUntilError_cons_of_ok hfirst,
        List.length_cons, Nat.add_right_comm, Nat.add_assoc]
    · have hcounted : applyCounted platform (graph, applied) first = ((next, applied),
          some (.applyRecord first.recordDigest first.event.sequence err)) := by
        rw [applyCounted, hfirst]
      rw [rangeUntilError_cons_of_error hcounted, applyRecords,
        rangeUntilError_cons_of_error hfirst]
      simp

variable (platform) in
/-- `ApplyRecord` on one record after the other, up to the first that it rejects. -/
structure AppliesUntil (graph : Graph) (records : List StructuralRecord) (final : Graph)
    (count : Nat) (err : Option ReplayError) : Prop where
  applied : applyRecords platform graph (records.take count) = (final, none)
  complete : err = none → count = records.length
  rejected : ∀ failure, err = some failure → ∃ record cause, records[count]? = some record ∧
    applyRecord platform final record = (final, some cause) ∧
    failure = .applyRecord record.recordDigest record.event.sequence cause

theorem AppliesUntil.length_take {records : List StructuralRecord} {count : Nat}
    {err : Option ReplayError} (h : AppliesUntil platform graph records final count err) :
    (records.take count).length = count := by
  rw [List.length_take]
  rcases err with _ | failure
  · have hcount := h.complete rfl
    omega
  · obtain ⟨_, _, hrecord, -⟩ := h.rejected failure rfl
    have hlt := (List.getElem?_eq_some_iff.mp hrecord).1
    omega

/-- The loop over a page does that, and its count adds to what was counted before. -/
theorem appliesUntil_of_counted {records : List StructuralRecord} {applied total : Nat}
    {err : Option ReplayError}
    (h : rangeUntilError (applyCounted platform) (graph, applied) records = ((final, total), err)) :
    ∃ count, total = applied + count ∧ AppliesUntil platform graph records final count err ∧
      ∀ start, rangeUntilError (applyCounted platform) (graph, start) records =
        ((final, start + count), err) := by
  induction records generalizing graph applied with
  | nil =>
    cases h
    refine ⟨0, rfl, ⟨rfl, fun _ => rfl, ?_⟩, fun _ => rfl⟩
    intro failure hfailure
    cases hfailure
  | cons first records ih =>
    rcases hfirst : applyRecord platform graph first with ⟨next, _ | cause⟩
    · have hcounted : ∀ start, applyCounted platform (graph, start) first =
          ((next, start + 1), none) := by
        intro start
        rw [applyCounted, hfirst]
      rw [rangeUntilError_cons_of_ok (hcounted applied)] at h
      obtain ⟨count, htotal, hrest, hstart⟩ := ih h
      refine ⟨count + 1, by omega, ⟨?_, ?_, hrest.rejected⟩, ?_⟩
      · exact rangeUntilError_cons_eq_ok.mpr ⟨next, hfirst, hrest.applied⟩
      · intro hnone
        rw [hrest.complete hnone, List.length_cons]
      · intro start
        rw [rangeUntilError_cons_of_ok (hcounted start), hstart, Nat.add_assoc, Nat.add_comm 1]
    · obtain rfl := applyRecord_eq_error hfirst
      have hcounted : ∀ start, applyCounted platform (next, start) first = ((next, start),
          some (.applyRecord first.recordDigest first.event.sequence cause)) := by
        intro start
        rw [applyCounted, hfirst]
      rw [rangeUntilError_cons_of_error (hcounted applied)] at h
      cases h
      refine ⟨0, rfl, ⟨rfl, ?_, ?_⟩, fun start => rangeUntilError_cons_of_error (hcounted start) _⟩
      · intro hnone
        cases hnone
      · intro failure hfailure
        exact ⟨first, cause, rfl, hfirst, (Option.some.inj hfailure).symm⟩

/-! ### One scan -/

/-- What holds of exactly the items from a position on selects that suffix. -/
theorem filter_eq_drop {α : Type} {wanted : α → Bool} {items : List α} {k : Nat}
    (h : ∀ i item, items[i]? = some item → (wanted item = true ↔ k ≤ i)) :
    items.filter wanted = items.drop k := by
  induction items generalizing k with
  | nil => simp
  | cons first rest ih =>
    have hfirst := h 0 first rfl
    cases k with
    | zero =>
      rw [List.drop_zero, List.filter_eq_self]
      intro item hitem
      obtain ⟨i, hi⟩ := List.mem_iff_getElem?.mp hitem
      exact (h i item hi).mpr (Nat.zero_le i)
    | succ k =>
      rw [List.filter_cons_of_neg (by simp [hfirst]), List.drop_succ_cons]
      apply ih
      intro i item hitem
      rw [h (i + 1) item hitem]
      omega

/-- The first records have the numbers 1, 2, … -/
def NumberedTo (count : Nat) (records : List StructuralRecord) : Prop :=
  ∀ i record, i < count → records[i]? = some record → record.event.sequence.toNat = i + 1

theorem NumberedTo.take {count : Nat} {records : List StructuralRecord}
    (h : NumberedTo count records) : NumberedTo count (records.take count) := by
  intro i record hi hrecord
  rw [List.getElem?_take_of_lt hi] at hrecord
  exact h i record hi hrecord

theorem NumberedTo.of_take {count : Nat} {records : List StructuralRecord}
    (h : NumberedTo count (records.take count)) : NumberedTo count records := by
  intro i record hi hrecord
  exact h i record hi (by rwa [List.getElem?_take_of_lt hi])

theorem ascending_of_holds (h : table.Holds platform ledgerID chain) :
    (chain.map ValidatedRecord.record).Pairwise fun left right =>
      left.event.sequence.toNat < right.event.sequence.toNat := by
  have hrows : (table.ledgerRows ledgerID).Pairwise fun left right =>
      left.sequenceNumber.toNat < right.sequenceNumber.toNat :=
    sortBy_strict (nodup_ledgerSequences table ledgerID)
  rw [h, List.pairwise_map] at hrows
  exact List.pairwise_map.mpr hrows

/-- Past the numbered records come larger numbers. -/
theorem lt_sequence_of_le {records : List StructuralRecord} {count i : Nat}
    (hascending : records.Pairwise fun left right =>
      left.event.sequence.toNat < right.event.sequence.toNat)
    (hnumbered : NumberedTo count records) (hpos : 0 < record.event.sequence.toNat)
    (hi : records[i]? = some record) (hle : count ≤ i) : count < record.event.sequence.toNat := by
  cases count with
  | zero => exact hpos
  | succ count =>
    obtain ⟨hlt, hrecord⟩ := List.getElem?_eq_some_iff.mp hi
    have hbefore := hnumbered count _ (Nat.lt_succ_self count)
      (List.getElem?_eq_getElem (by omega : count < records.length))
    have hascends := List.pairwise_iff_getElem.mp hascending count i (by omega) hlt (by omega)
    rw [hrecord] at hascends
    omega

theorem sequence_pos_of_getElem? {i : Nat}
    (h : (chain.map ValidatedRecord.record)[i]? = some record) : 0 < record.event.sequence.toNat :=
  sequence_pos_of_mem_map record (List.mem_of_getElem? h)

/-- A scan from the watermark returns the records that come after it. -/
theorem scan_eq_drop (h : table.Holds platform ledgerID chain) {batchSize : Int}
    (hbatch : 0 < batchSize) (hledger : graph.ledgerID = ledgerID)
    (hroom : graph.lastSequence.toNat < 2 ^ 64 - 1)
    (hnumbered : NumberedTo graph.lastSequence.toNat (chain.map ValidatedRecord.record)) :
    scanRecords platform table graph.ledgerID (graph.lastSequence + 1) batchSize =
      .ok (((chain.map ValidatedRecord.record).drop graph.lastSequence.toNat).take
        batchSize.toNat) := by
  have hstart : (graph.lastSequence + 1).toNat = graph.lastSequence.toNat + 1 := by
    rw [UInt64.toNat_add, UInt64.toNat_one, Nat.mod_eq_of_lt (by omega)]
  rw [hledger, h.scanRecords_eq _ hbatch, filter_eq_drop]
  intro i record hrecord
  rw [decide_eq_true_eq, UInt64.le_iff_toNat_le, hstart]
  constructor
  · intro hlate
    by_contra hearly
    have hnumber := hnumbered i record (by omega) hrecord
    omega
  · intro hlate
    exact lt_sequence_of_le (ascending_of_holds h) hnumbered (sequence_pos_of_getElem? hrecord)
      hrecord hlate

/-! ### The loop -/

section Loop

variable {tables : Nat → Table} {chains : Nat → List (ValidatedRecord platform)}

/-- A graph that has seen the first records of a ledger. -/
structure Caught (ledgerID : LedgerID) (chain : List (ValidatedRecord platform)) (graph : Graph) :
    Prop where
  ledger : graph.ledgerID = ledgerID
  last : graph.lastSequence.toNat ≤ chain.length
  numbered : NumberedTo graph.lastSequence.toNat (chain.map ValidatedRecord.record)

/-- The records after the watermark. -/
def pending (chain : List (ValidatedRecord platform)) (graph : Graph) : List StructuralRecord :=
  (chain.map ValidatedRecord.record).drop graph.lastSequence.toNat

/-- A page moves the watermark past its records. -/
theorem Caught.page (h : Caught ledgerID chain graph) {size : Nat}
    (happly : applyRecords platform graph ((pending chain graph).take size) = (next, none)) :
    Caught ledgerID chain next ∧ next.lastSequence.toNat =
      graph.lastSequence.toNat + ((pending chain graph).take size).length := by
  have hpos : ∀ record ∈ (pending chain graph).take size, 0 < record.event.sequence.toNat :=
    fun record hrecord => sequence_pos_of_mem_map record
      (List.mem_of_mem_drop (List.mem_of_mem_take hrecord))
  obtain ⟨hledger, hlast, hposition⟩ := applyRecords_positions hpos happly
  have hlength : ((pending chain graph).take size).length =
      min size (chain.length - graph.lastSequence.toNat) := by
    rw [pending, List.length_take, List.length_drop, List.length_map]
  have hcaught := h.last
  refine ⟨⟨hledger.trans h.ledger, by omega, ?_⟩, hlast⟩
  intro i record hi hrecord
  by_cases hold : i < graph.lastSequence.toNat
  · exact h.numbered i record hold hrecord
  · -- a record of the page
    have hpage :
        ((pending chain graph).take size)[i - graph.lastSequence.toNat]? = some record := by
      rw [List.getElem?_take_of_lt (by omega), pending, List.getElem?_drop,
        Nat.add_sub_cancel' (by omega)]
      exact hrecord
    have hnumber := (hposition _ record hpage).2
    omega

/-- **One round** ends the replay, or applies a full page and goes on. -/
theorem Caught.round_cases {round applied : Nat} {batchSize : Int} (hbatch : 0 < batchSize)
    (hholds : table.Holds platform ledgerID chain) (h : Caught ledgerID chain graph)
    (hroom : graph.lastSequence.toNat < 2 ^ 64 - 1) :
    (∃ final count err, count < batchSize.toNat ∧
      rangeUntilError (applyCounted platform) (graph, applied) (pending chain graph) =
        ((final, applied + count), err) ∧
      ∀ scans : Scans, scans.table round = table → scans.fails round = false → ∀ fuel,
        replayLoop platform scans batchSize (fuel + 1) round (graph, applied) =
          some ((final, applied + count), err)) ∨
    ∃ next, ((pending chain graph).take batchSize.toNat).length = batchSize.toNat ∧
      rangeUntilError (applyCounted platform) (graph, applied)
        ((pending chain graph).take batchSize.toNat) =
          ((next, applied + batchSize.toNat), none) ∧
      ∀ scans : Scans, scans.table round = table → scans.fails round = false → ∀ fuel,
        replayLoop platform scans batchSize (fuel + 1) round (graph, applied) =
          replayLoop platform scans batchSize fuel (round + 1)
            (next, applied + batchSize.toNat) := by
  have hscan := scan_eq_drop hholds hbatch h.ledger hroom h.numbered
  rw [← pending] at hscan
  have hquery : ∀ scans : Scans, scans.table round = table → scans.fails round = false →
      query (scans.fails round) (scanRecords platform (scans.table round) graph.ledgerID
        (graph.lastSequence + 1) batchSize) =
          .ok ((pending chain graph).take batchSize.toNat) := by
    intro scans htable hfails
    rw [htable, hfails]
    exact query_eq_ok.mpr ⟨rfl, hscan⟩
  have hlength : ((pending chain graph).take batchSize.toNat).length =
      min batchSize.toNat (pending chain graph).length := List.length_take
  have hsplit :
      rangeUntilError (applyCounted platform) (graph, applied) (pending chain graph) = _ :=
    (congrArg _ (List.take_append_drop batchSize.toNat _).symm).trans (rangeUntilError_append ..)
  by_cases hempty : ((pending chain graph).take batchSize.toNat).length = 0
  · refine .inl ⟨graph, 0, none, by omega, ?_, ?_⟩
    · rw [List.length_eq_zero_iff.mp (by omega : (pending chain graph).length = 0),
        rangeUntilError_nil, Nat.add_zero]
    · intro scans htable hfails fuel
      simp only [replayLoop, hquery scans htable hfails, if_pos hempty, Nat.add_zero]
  · rcases hpage : rangeUntilError (applyCounted platform) (graph, applied)
      ((pending chain graph).take batchSize.toNat) with ⟨⟨next, total⟩, err⟩
    obtain ⟨count, rfl, hpart, -⟩ := appliesUntil_of_counted hpage
    have hcount := hpart.length_take
    rw [List.length_take] at hcount
    rcases err with _ | err
    · have hall := hpart.complete rfl
      by_cases hshort : (((pending chain graph).take batchSize.toNat).length : Int) < batchSize
      · -- a short page is the last one
        refine .inl ⟨next, count, none, by omega, ?_, ?_⟩
        · rw [hsplit, hpage]
          simp only
          rw [List.drop_of_length_le (by omega), rangeUntilError_nil]
        · intro scans htable hfails fuel
          simp only [replayLoop, hquery scans htable hfails, if_neg hempty, hpage, if_pos hshort]
      · obtain rfl : count = batchSize.toNat := by omega
        refine .inr ⟨next, hall.symm, rfl, ?_⟩
        intro scans htable hfails fuel
        simp only [replayLoop, hquery scans htable hfails, if_neg hempty, hpage, if_neg hshort]
    · obtain ⟨_, _, hrejected, -⟩ := hpart.rejected err rfl
      have hlt := (List.getElem?_eq_some_iff.mp hrejected).1
      refine .inl ⟨next, count, some err, by omega, ?_, ?_⟩
      · rw [hsplit, hpage]
      · intro scans htable hfails fuel
        simp only [replayLoop, hquery scans htable hfails, if_neg hempty, hpage]

/-- A scan that fails as a query ends the replay. -/
theorem replayLoop_of_fails {scans : Scans} {round : Nat} (hfails : scans.fails round = true)
    (batchSize : Int) (fuel : Nat) (progress : ReplayProgress) :
    replayLoop platform scans batchSize (fuel + 1) round progress =
      some (progress, some (.scanRecords (progress.1.lastSequence + 1) none)) := by
  simp only [replayLoop, hfails, query, if_true]

/-- What was seen is kept when later records are added. -/
theorem Caught.of_take {later : List (ValidatedRecord platform)} (h : Caught ledgerID chain graph)
    (htake : later.take graph.lastSequence.toNat = chain.take graph.lastSequence.toNat) :
    Caught ledgerID later graph := by
  refine ⟨h.ledger, ?_, ?_⟩
  · have hlength := congrArg List.length htake
    have hlast := h.last
    rw [List.length_take, List.length_take] at hlength
    omega
  · apply NumberedTo.of_take
    rw [← List.map_take, htake, List.map_take]
    exact h.numbered.take

/-- The records that were pending are a page and those that are pending after it. -/
theorem pending_of_take {later : List (ValidatedRecord platform)} {size : Nat}
    (hlast : next.lastSequence.toNat =
      graph.lastSequence.toNat + ((pending chain graph).take size).length)
    (htake : later.take next.lastSequence.toNat = chain.take next.lastSequence.toNat) :
    pending later graph = (pending chain graph).take size ++ pending later next := by
  have hprefix : (pending chain graph).take size <+: pending chain graph := List.take_prefix ..
  generalize (pending chain graph).take size = page at hlast hprefix ⊢
  have hdrop := congrArg (fun records => (records.map ValidatedRecord.record).drop
    graph.lastSequence.toNat) htake
  simp only [List.map_take, List.drop_take, hlast, Nat.add_sub_cancel_left] at hdrop
  calc pending later graph
      = (pending later graph).take page.length ++ (pending later graph).drop page.length :=
        (List.take_append_drop ..).symm
    _ = (pending chain graph).take page.length ++ pending later next := by
        rw [pending, hdrop, List.drop_drop, ← hlast]
        rfl
    _ = page ++ pending later next := by rw [← List.prefix_iff_eq_take.mp hprefix]

/-- What a replay comes to that makes its scans in the rounds from `first` to `last`. -/
structure Outcome (platform : Platform) (tables : Nat → Table) (batchSize : Int) (first last : Nat)
    (progress : ReplayProgress) (result : ReplayProgress × Option ReplayError) (least : Nat) :
    Prop where
  answered : ∀ scans : Scans, (∀ i, first ≤ i → i ≤ last → scans.table i = tables i) →
    (∀ i, first ≤ i → i ≤ last → scans.fails i = false) → ∀ fuel, least < fuel →
      replayLoop platform scans batchSize fuel first progress = some result
  fails : ∀ scans : Scans, (∀ i, first ≤ i → i ≤ last → scans.table i = tables i) →
    (∃ i, first ≤ i ∧ i ≤ last ∧ scans.fails i = true) → ∀ fuel, least < fuel →
      ∃ reached start, replayLoop platform scans batchSize fuel first progress =
        some (reached, some (.scanRecords start none))

/-- The outcome of a replay that ends in its first round. -/
theorem outcome_of_end {batchSize : Int} {round least : Nat} {progress : ReplayProgress}
    {result : ReplayProgress × Option ReplayError}
    (hends : ∀ scans : Scans, scans.table round = tables round → scans.fails round = false →
      ∀ fuel, replayLoop platform scans batchSize (fuel + 1) round progress = some result) :
    Outcome platform tables batchSize round round progress result least := by
  constructor
  · intro scans htables hanswered fuel hfuel
    obtain ⟨fuel, rfl⟩ := Nat.exists_eq_add_of_lt hfuel
    exact hends scans (htables round (Nat.le_refl _) (Nat.le_refl _))
      (hanswered round (Nat.le_refl _) (Nat.le_refl _)) _
  · rintro scans - ⟨i, hfirst, hlast, hfails⟩ fuel hfuel
    obtain rfl := Nat.le_antisymm hfirst hlast
    obtain ⟨fuel, rfl⟩ := Nat.exists_eq_add_of_lt hfuel
    exact ⟨_, _, replayLoop_of_fails hfails ..⟩

/-- The outcome of a replay that goes on after a round. -/
theorem Outcome.before {batchSize : Int} {round last least : Nat} {progress next : ReplayProgress}
    {result : ReplayProgress × Option ReplayError} (hle : round + 1 ≤ last)
    (h : Outcome platform tables batchSize (round + 1) last next result least)
    (hgoes : ∀ scans : Scans, scans.table round = tables round → scans.fails round = false →
      ∀ fuel, replayLoop platform scans batchSize (fuel + 1) round progress =
        replayLoop platform scans batchSize fuel (round + 1) next) :
    Outcome platform tables batchSize round last progress result (least + 1) := by
  constructor
  · intro scans htables hanswered fuel hfuel
    obtain ⟨fuel, rfl⟩ := Nat.exists_eq_add_of_lt hfuel
    rw [hgoes scans (htables round (Nat.le_refl _) (by omega))
      (hanswered round (Nat.le_refl _) (by omega))]
    exact h.answered scans (fun i hi => htables i (by omega)) (fun i hi => hanswered i (by omega)) _
      (by omega)
  · rintro scans htables ⟨i, hfirst, hlast, hfails⟩ fuel hfuel
    obtain ⟨fuel, rfl⟩ := Nat.exists_eq_add_of_lt hfuel
    rcases hround : scans.fails round with _ | _
    · -- the failing scan is a later one
      have hlater : i ≠ round := by
        rintro rfl
        rw [hround] at hfails
        cases hfails
      rw [hgoes scans (htables round (Nat.le_refl _) (by omega)) hround]
      exact h.fails scans (fun i hi => htables i (by omega)) ⟨i, by omega, hlast, hfails⟩ _
        (by omega)
    · exact ⟨_, _, replayLoop_of_fails hround ..⟩

variable (tables chains) in
/-- **Paging is invisible.**  The loop does what one pass does over the ledger as it is at
the last scan, whatever the page size.  It makes one scan more than it reads full
pages. -/
theorem replayLoop_eq {bound : Nat} (hholds : ∀ i, (tables i).Holds platform ledgerID (chains i))
    (hgrown : ∀ i j graph, i ≤ j → Caught ledgerID (chains i) graph →
      (chains j).take graph.lastSequence.toNat = (chains i).take graph.lastSequence.toNat)
    (hbound : ∀ i, (chains i).length ≤ bound) (hroom : bound < 2 ^ 64 - 1) {batchSize : Int}
    (hbatch : 0 < batchSize) (left round applied : Nat) (h : Caught ledgerID (chains round) graph)
    (hleft : bound ≤ graph.lastSequence.toNat + left) :
    ∃ final count err, rangeUntilError (applyCounted platform) (graph, applied)
        (pending (chains (round + count / batchSize.toNat)) graph) =
          ((final, applied + count), err) ∧
      Outcome platform tables batchSize round (round + count / batchSize.toNat) (graph, applied)
        ((final, applied + count), err) left := by
  have hlength := hbound round
  have hcaught := h.last
  induction left generalizing round applied graph with
  | zero =>
    rcases h.round_cases hbatch (hholds round) (by omega) with
      ⟨final, count, err, hcount, hpass, hends⟩ | ⟨next, hfull, -, -⟩
    · refine ⟨final, count, err, ?_⟩
      rw [Nat.div_eq_of_lt hcount, Nat.add_zero]
      exact ⟨hpass, outcome_of_end hends⟩
    · -- every record has been applied already
      rw [pending, List.length_take, List.length_drop, List.length_map] at hfull
      omega
  | succ left ih =>
    rcases h.round_cases hbatch (hholds round) (by omega) with
      ⟨final, count, err, hcount, hpass, hends⟩ | ⟨next, hfull, hpage, hgoes⟩
    · refine ⟨final, count, err, ?_⟩
      rw [Nat.div_eq_of_lt hcount, Nat.add_zero]
      exact ⟨hpass, outcome_of_end hends⟩
    · obtain ⟨hnext, hlast⟩ := h.page (applyCounted_eq_ok.mp hpage).1
      have hnextLater := hnext.of_take (hgrown round (round + 1) next (Nat.le_succ _) hnext)
      obtain ⟨final, count, err, hpass, houtcome⟩ := ih (round + 1) (applied + batchSize.toNat)
        hnextLater (by omega) (hbound _) hnextLater.last
      have hrounds : round + (batchSize.toNat + count) / batchSize.toNat =
          round + 1 + count / batchSize.toNat := by
        rw [Nat.add_div_left _ (by omega)]
        omega
      refine ⟨final, batchSize.toNat + count, err, ?_⟩
      rw [hrounds, ← Nat.add_assoc]
      refine ⟨?_, houtcome.before (Nat.le_add_right ..) hgoes⟩
      -- the page is still there at the last scan
      have hkept := hgrown round (round + 1 + count / batchSize.toNat) next
        (Nat.le_trans (Nat.le_succ _) (Nat.le_add_right ..)) hnext
      rw [pending_of_take hlast hkept, rangeUntilError_append, hpage]
      exact hpass

end Loop

/-! ### A ledger that stays as it is -/

/-- A ledger in the store whose records are numbered from one. -/
structure Numbered (table : Table) (ledgerID : LedgerID) (chain : List (ValidatedRecord platform)) :
    Prop where
  holds : table.Holds platform ledgerID chain
  position : ∀ i record, (chain.map ValidatedRecord.record)[i]? = some record →
    record.event.sequence.toNat = i + 1
  bound : chain.length < 2 ^ 64 - 1

theorem numbered_of_legal (hcbor : platform.cbor.Conforms)
    (hholds : table.Holds platform ledgerID chain)
    (hlegal : LegalChain platform (chain.map ValidatedRecord.record))
    (hbound : chain.length < 2 ^ 64 - 1) : Numbered table ledgerID chain := by
  refine ⟨hholds, ?_, hbound⟩
  intro i record hrecord
  rw [List.getElem?_map, Option.map_eq_some_iff] at hrecord
  obtain ⟨validated, hi, rfl⟩ := hrecord
  exact hlegal.sequence_eq hcbor hi

theorem Numbered.ledger_position (h : Numbered table ledgerID chain) :
    ∀ i record, (chain.map ValidatedRecord.record)[i]? = some record →
      record.event.ledgerID = ledgerID ∧ record.event.sequence.toNat = i + 1 := by
  intro i record hrecord
  refine ⟨?_, h.position i record hrecord⟩
  obtain ⟨validated, hmem, rfl⟩ := List.mem_map.mp (List.mem_of_getElem? hrecord)
  exact h.holds.ledgerID_eq hmem

theorem batchSize_pos (batchSize : Int) : 0 < if batchSize ≤ 0 then 256 else batchSize := by
  split <;> omega

/-- A replay into a graph that has seen the first records. -/
theorem Numbered.replay_eq (h : Numbered table ledgerID chain)
    (hgraph : Caught ledgerID chain graph) (batchSize : Int) {fuel : Nat}
    (hfuel : chain.length < fuel) :
    replayFromStore platform (fun _ => table) batchSize fuel graph =
      some (rangeUntilError (applyCounted platform) (graph, 0) (pending chain graph)) := by
  obtain ⟨final, count, err, hpass, houtcome⟩ := replayLoop_eq (fun _ => table) (fun _ => chain)
    (fun _ => h.holds) (fun _ _ _ _ _ => rfl) (fun _ => Nat.le_refl _) h.bound
    (batchSize_pos batchSize) chain.length 0 0 hgraph (Nat.le_add_left _ _)
  rw [hpass]
  exact houtcome.answered (.answered fun _ => table) (fun _ _ _ => rfl) (fun _ _ _ => rfl) fuel
    hfuel

theorem caught_newGraph (ledgerID : LedgerID) (chain : List (ValidatedRecord platform)) :
    Caught ledgerID chain (newGraph ledgerID) :=
  ⟨rfl, Nat.zero_le _, fun _ _ hi => absurd hi (Nat.not_lt_zero _)⟩

/-- Replay of a whole ledger into a fresh graph. -/
theorem Numbered.replayFromStore_eq (h : Numbered table ledgerID chain) (batchSize : Int)
    {fuel : Nat} (hfuel : chain.length < fuel) :
    replayFromStore platform (fun _ => table) batchSize fuel (newGraph ledgerID) =
      some (rangeUntilError (applyCounted platform) (newGraph ledgerID, 0)
        (chain.map ValidatedRecord.record)) :=
  h.replay_eq (caught_newGraph ledgerID chain) batchSize hfuel

/-! ### A ledger that others append to -/

/-- Appending adds rows of validated records, at the end. -/
theorem exists_rows_appendAll (table : Table) (records : List (ValidatedRecord platform)) :
    ∃ more : List (ValidatedRecord platform), (appendAll table records).1.rows =
      table.rows ++ more.map fun validated => rowOfRecord validated.record := by
  induction records generalizing table with
  | nil => exact ⟨[], (List.append_nil _).symm⟩
  | cons validated records ih =>
    obtain ⟨more, hmore⟩ := ih (append table validated.record).1
    rcases happend : append table validated.record with ⟨next, _ | err⟩
    · obtain ⟨hadmits, rfl⟩ := append_eq_none.mp happend
      refine ⟨validated :: more, hmore.trans ?_⟩
      rw [happend]
      exact List.append_assoc ..
    · refine ⟨more, hmore.trans ?_⟩
      rw [happend, append_eq_some happend]

/-- What the scans of a replay read when others append records in between. -/
def storeAt (table : Table) (writes : Nat → List (ValidatedRecord platform)) : Nat → Table
  | 0 => table
  | scan + 1 => (appendAll (storeAt table writes scan) (writes scan)).1

theorem exists_rows_storeAt (table : Table) (writes : Nat → List (ValidatedRecord platform))
    {i j : Nat} (h : i ≤ j) :
    ∃ more : List (ValidatedRecord platform), (storeAt table writes j).rows =
      (storeAt table writes i).rows ++ more.map fun validated => rowOfRecord validated.record := by
  induction j, h using Nat.le_induction with
  | base => exact ⟨[], (List.append_nil _).symm⟩
  | succ j _ ih =>
    obtain ⟨more, hmore⟩ := ih
    obtain ⟨last, hlast⟩ := exists_rows_appendAll (storeAt table writes j) (writes j)
    refine ⟨more ++ last, hlast.trans ?_⟩
    rw [hmore, List.map_append, List.append_assoc]

theorem authentic_storeAt
    (h : ∀ row ∈ table.rows, row.ledgerID = ledgerID → Authentic platform row)
    (writes : Nat → List (ValidatedRecord platform)) (i : Nat) :
    ∀ row ∈ (storeAt table writes i).rows, row.ledgerID = ledgerID → Authentic platform row := by
  obtain ⟨more, hmore⟩ := exists_rows_storeAt table writes (Nat.zero_le i)
  intro row hrow hledger
  rw [hmore] at hrow
  rcases List.mem_append.mp hrow with hold | hnew
  · exact h row hold hledger
  · obtain ⟨validated, -, rfl⟩ := List.mem_map.mp hnew
    exact ⟨validated, rfl⟩

/-- The numbered records at the front of a ledger stay there. -/
theorem take_of_grown {next : Table} {later : List (ValidatedRecord platform)} {more : List Row}
    {count : Nat} (hholds : table.Holds platform ledgerID chain)
    (hlater : next.Holds platform ledgerID later) (hrows : next.rows = table.rows ++ more)
    (hcount : count ≤ chain.length)
    (hnumbered : NumberedTo count (chain.map ValidatedRecord.record)) :
    later.take count = chain.take count := by
  have hsequences : ∀ i row, i < count → (table.ledgerRows ledgerID)[i]? = some row →
      row.sequenceNumber.toNat = i + 1 := by
    intro i row hi hrow
    rw [hholds, List.getElem?_map] at hrow
    obtain ⟨validated, hvalidated, rfl⟩ := Option.map_eq_some_iff.mp hrow
    exact hnumbered i validated.record hi (by rw [List.getElem?_map, hvalidated, Option.map_some])
  have hlength : (table.rows.filter fun row => row.ledgerID = ledgerID).length = chain.length := by
    rw [← (sortBy_perm (fun row => row.sequenceNumber.toNat) _).length_eq]
    exact (congrArg List.length hholds).trans (List.length_map ..)
  have hnodup := nodup_ledgerSequences next ledgerID
  have hpos : ∀ row ∈ next.rows.filter (fun row => row.ledgerID = ledgerID),
      0 < row.sequenceNumber.toNat := by
    intro row hrow
    have hnonzero := (next.numericRange row (List.mem_of_mem_filter hrow)).2.2
    exact Nat.pos_of_ne_zero fun hzero => hnonzero (UInt64.toNat_inj.mp hzero)
  rw [hrows, List.filter_append] at hnodup hpos
  have hrowsTake := take_sortBy_append hnodup hpos (by omega) hsequences
  rw [← List.filter_append, ← hrows] at hrowsTake
  apply List.map_injective_iff.mpr rowOfRecord_injective
  rw [List.map_take, List.map_take, ← hlater, ← hholds]
  exact hrowsTake

/-! ### The replay -/

/-- A graph projected from the first records has caught up with them. -/
theorem caught_of_applied {k : Nat} (hk : k ≤ chain.length)
    (happly : applyRecords platform (newGraph ledgerID)
      ((chain.map ValidatedRecord.record).take k) = (graph, none)) :
    Caught ledgerID chain graph ∧ graph.lastSequence.toNat = k := by
  obtain ⟨hcaught, hlast⟩ := (caught_newGraph ledgerID chain).page happly
  refine ⟨hcaught, hlast.trans ?_⟩
  have hzero : (newGraph ledgerID).lastSequence.toNat = 0 := rfl
  rw [pending, hzero, List.drop_zero, List.length_take, List.length_map]
  omega

/-- A replay can be taken up where another one got to. -/
theorem counted_resume {records : List StructuralRecord} {k j : Nat} {middle : Graph} (hkj : k ≤ j)
    (hj : j ≤ records.length)
    (hgraph : applyRecords platform (newGraph ledgerID) (records.take k) = (graph, none))
    (hmiddle : applyRecords platform (newGraph ledgerID) (records.take j) = (middle, none)) :
    rangeUntilError (applyCounted platform) (graph, 0) (records.drop k) =
      rangeUntilError (applyCounted platform) (middle, j - k) (records.drop j) := by
  have hbetween : applyRecords platform graph ((records.take j).drop k) = (middle, none) := by
    rw [← List.take_append_drop k (records.take j), List.take_take, Nat.min_eq_left hkj] at hmiddle
    obtain ⟨reached, hreached, hrest⟩ := rangeUntilError_append_eq_ok.mp hmiddle
    cases hgraph.symm.trans hreached
    exact hrest
  have hlength : ((records.take j).drop k).length = j - k := by
    rw [List.length_drop, List.length_take]
    omega
  have hcounted : rangeUntilError (applyCounted platform) (graph, 0) ((records.take j).drop k) =
      ((middle, j - k), none) := applyCounted_eq_ok.mpr ⟨hbetween, by omega⟩
  have hsplit : records.drop k = (records.take j).drop k ++ records.drop j := by
    conv_lhs => rw [← List.take_append_drop j records, List.drop_append_of_le_length
      (by rw [List.length_take]; omega)]
  rw [hsplit, rangeUntilError_append, hcounted]

theorem numbered_of_rows {n : Nat} (hholds : table.Holds platform ledgerID chain)
    (hrows : (table.ledgerRows ledgerID).map (fun row => row.sequenceNumber.toNat) =
      List.range' 1 n)
    (hbound : n < 2 ^ 64 - 1) : Numbered table ledgerID chain ∧ chain.length = n := by
  rw [hholds, List.map_map] at hrows
  have hlength : chain.length = n := by
    simpa using congrArg List.length hrows
  refine ⟨⟨hholds, ?_, by omega⟩, hlength⟩
  intro i record hrecord
  rw [List.getElem?_map] at hrecord
  obtain ⟨validated, hvalidated, rfl⟩ := Option.map_eq_some_iff.mp hrecord
  have hi := (List.getElem?_eq_some_iff.mp hvalidated).1
  have hnumber := congrArg (fun numbers => numbers[i]?) hrows
  simp only [List.getElem?_map, hvalidated, Option.map_some,
    List.getElem?_range' (hlength ▸ hi), Option.some.injEq] at hnumber
  simp only [Function.comp_apply, rowOfRecord] at hnumber
  omega

/-- The replay of a ledger that nobody writes to. -/
theorem Numbered.replay_outcome (h : Numbered table ledgerID chain) {k : Nat}
    (hk : k ≤ chain.length)
    (hgraph : applyRecords platform (newGraph ledgerID)
      ((chain.map ValidatedRecord.record).take k) = (graph, none)) :
    ∃ final count err,
      AppliesUntil platform graph ((chain.map ValidatedRecord.record).drop k) final count err ∧
      (∀ batchSize fuel, chain.length < fuel →
        replayFromStore platform (fun _ => table) batchSize fuel graph =
          some ((final, count), err)) ∧
      (err = none → ∀ batchSize fuel, chain.length < fuel →
        replayFromStore platform (fun _ => table) batchSize fuel final =
          some ((final, 0), none)) ∧
      ∀ j middle, k ≤ j → j ≤ chain.length →
        applyRecords platform (newGraph ledgerID) ((chain.map ValidatedRecord.record).take j) =
          (middle, none) →
        ∃ rest, count = (j - k) + rest ∧ ∀ batchSize fuel, chain.length < fuel →
          replayFromStore platform (fun _ => table) batchSize fuel middle =
            some ((final, rest), err) := by
  have hlength : (chain.map ValidatedRecord.record).length = chain.length := List.length_map ..
  have hreplay : ∀ j middle, j ≤ chain.length →
      applyRecords platform (newGraph ledgerID) ((chain.map ValidatedRecord.record).take j) =
        (middle, none) →
      ∀ batchSize fuel, chain.length < fuel →
        replayFromStore platform (fun _ => table) batchSize fuel middle =
          some (rangeUntilError (applyCounted platform) (middle, 0)
            ((chain.map ValidatedRecord.record).drop j)) := by
    intro j middle hj hmiddle batchSize fuel hfuel
    obtain ⟨hcaught, rfl⟩ := caught_of_applied hj hmiddle
    exact h.replay_eq hcaught batchSize hfuel
  rcases houtcome : rangeUntilError (applyCounted platform) (graph, 0)
    ((chain.map ValidatedRecord.record).drop k) with ⟨⟨final, total⟩, err⟩
  obtain ⟨count, htotal, happlies, -⟩ := appliesUntil_of_counted houtcome
  obtain rfl : total = count := by omega
  refine ⟨final, total, err, happlies, ?_, ?_, ?_⟩
  · intro batchSize fuel hfuel
    rw [hreplay k graph hk hgraph batchSize fuel hfuel, houtcome]
  · rintro rfl batchSize fuel hfuel
    have hall : applyRecords platform (newGraph ledgerID)
        ((chain.map ValidatedRecord.record).take chain.length) = (final, none) := by
      rw [← hlength, List.take_length, ← List.take_append_drop k (chain.map ValidatedRecord.record)]
      exact rangeUntilError_append_eq_ok.mpr ⟨graph, hgraph, (applyCounted_eq_ok.mp houtcome).1⟩
    rw [hreplay chain.length final (Nat.le_refl _) hall batchSize fuel hfuel, ← hlength,
      List.drop_length, rangeUntilError_nil]
  · intro j middle hkj hj hmiddle
    rw [counted_resume hkj (by omega) hgraph hmiddle] at houtcome
    obtain ⟨rest, hrest, -, hstart⟩ := appliesUntil_of_counted houtcome
    refine ⟨rest, hrest, ?_⟩
    intro batchSize fuel hfuel
    rw [hreplay j middle hj hmiddle batchSize fuel hfuel, hstart, Nat.zero_add]

/-- The replay of a ledger that others append to. -/
theorem Numbered.replay_growing (h : Numbered table ledgerID chain)
    (hauthentic : ∀ row ∈ table.rows, row.ledgerID = ledgerID → Authentic platform row) {k : Nat}
    (hk : k ≤ chain.length)
    (hgraph : applyRecords platform (newGraph ledgerID)
      ((chain.map ValidatedRecord.record).take k) = (graph, none))
    (writes : Nat → List (ValidatedRecord platform))
    (hbound : ∀ scan, ((storeAt table writes scan).ledgerRows ledgerID).length < 2 ^ 64 - 1)
    (batchSize : Int) :
    ∃ last later final count err,
      last = count / (if batchSize ≤ 0 then 256 else batchSize).toNat ∧
      (storeAt table writes last).Holds platform ledgerID later ∧ chain <+: later ∧
      AppliesUntil platform graph ((later.map ValidatedRecord.record).drop k) final count err ∧
      ∀ fuel, 2 ^ 64 ≤ fuel →
        replayFromStore platform (storeAt table writes) batchSize fuel graph =
          some ((final, count), err) := by
  choose chains hchains using fun scan => exists_holds (authentic_storeAt hauthentic writes scan)
  have hstart : chains 0 = chain := (hchains 0).unique h.holds
  have hlength : ∀ scan, (chains scan).length ≤ 2 ^ 64 - 2 := by
    intro scan
    have hrows := hbound scan
    rw [hchains scan, List.length_map] at hrows
    omega
  obtain ⟨hcaught, rfl⟩ := caught_of_applied hk hgraph
  have hgrown : ∀ i j graph, i ≤ j → Caught ledgerID (chains i) graph →
      (chains j).take graph.lastSequence.toNat = (chains i).take graph.lastSequence.toNat := by
    intro i j graph hij hseen
    obtain ⟨more, hmore⟩ := exists_rows_storeAt table writes hij
    exact take_of_grown (hchains i) (hchains j) hmore hseen.last hseen.numbered
  obtain ⟨final, count, err, hpass, houtcome⟩ := replayLoop_eq (storeAt table writes) chains hchains
    hgrown hlength (by omega) (batchSize_pos batchSize) (2 ^ 64 - 2) 0 0 (hstart ▸ hcaught)
    (Nat.le_add_left _ _)
  simp only [Nat.zero_add] at hpass houtcome
  obtain ⟨applied, rfl, happlies, -⟩ := appliesUntil_of_counted hpass
  simp only [Nat.zero_add] at hpass houtcome happlies
  refine ⟨_, _, final, applied, err, rfl, hchains _, ?_, happlies, ?_⟩
  · obtain ⟨more, hmore⟩ := exists_rows_storeAt table writes
      (Nat.zero_le (applied / (if batchSize ≤ 0 then 256 else batchSize).toNat))
    have hkept := take_of_grown h.holds (hchains _) hmore (Nat.le_refl _)
      fun i record _ hrecord => h.position i record hrecord
    rw [List.take_length] at hkept
    exact List.prefix_iff_eq_take.mpr hkept.symm
  · intro fuel hfuel
    exact houtcome.answered (.answered (storeAt table writes)) (fun _ _ _ => rfl)
      (fun _ _ _ => rfl) fuel (by omega)

/-- **Paged replay is plain replay.**  The rows of the ledger were written by `Append`
and are numbered 1, …, n; the graph is projected from the first `k` of them.  Then a
replay applies the records after `k` in order, up to the first that is rejected,
whatever the batch size.  After a success there is nothing left to apply, and a
replay that is stopped after `j` records is completed by another one.  If other
writers append between the scans, the replay is that of the ledger at the last scan,
which continues the ledger at the start; there is one scan for each full page, and one
more. -/
theorem replay_paged (platform : Platform) (table : Table) (ledgerID : LedgerID) (n : Nat)
    (hauthentic : ∀ row ∈ table.rows, row.ledgerID = ledgerID → Authentic platform row)
    (hrows : (table.ledgerRows ledgerID).map (fun row => row.sequenceNumber.toNat) =
      List.range' 1 n)
    (hbound : n < 2 ^ 64 - 1) :
    ∃ chain : List (ValidatedRecord platform), table.Holds platform ledgerID chain ∧
      ∀ k graph, k ≤ n →
        applyRecords platform (newGraph ledgerID) ((chain.map ValidatedRecord.record).take k) =
          (graph, none) →
        (∃ final count err,
          AppliesUntil platform graph ((chain.map ValidatedRecord.record).drop k) final count err ∧
          (∀ batchSize fuel, n < fuel →
            replayFromStore platform (fun _ => table) batchSize fuel graph =
              some ((final, count), err)) ∧
          (err = none → ∀ batchSize fuel, n < fuel →
            replayFromStore platform (fun _ => table) batchSize fuel final =
              some ((final, 0), none)) ∧
          ∀ j middle, k ≤ j → j ≤ n →
            applyRecords platform (newGraph ledgerID) ((chain.map ValidatedRecord.record).take j) =
              (middle, none) →
            ∃ rest, count = (j - k) + rest ∧ ∀ batchSize fuel, n < fuel →
              replayFromStore platform (fun _ => table) batchSize fuel middle =
                some ((final, rest), err)) ∧
        ∀ writes : Nat → List (ValidatedRecord platform),
          (∀ scan, ((storeAt table writes scan).ledgerRows ledgerID).length < 2 ^ 64 - 1) →
          ∀ batchSize, ∃ last later final count err,
            last = count / (if batchSize ≤ 0 then 256 else batchSize).toNat ∧
            (storeAt table writes last).Holds platform ledgerID later ∧ chain <+: later ∧
            AppliesUntil platform graph ((later.map ValidatedRecord.record).drop k) final count
              err ∧
            ∀ fuel, 2 ^ 64 ≤ fuel →
              replayFromStore platform (storeAt table writes) batchSize fuel graph =
                some ((final, count), err) := by
  obtain ⟨chain, hholds⟩ := exists_holds hauthentic
  obtain ⟨hnumbered, rfl⟩ := numbered_of_rows hholds hrows hbound
  refine ⟨chain, hholds, ?_⟩
  intro k graph hk hgraph
  exact ⟨hnumbered.replay_outcome hk hgraph, hnumbered.replay_growing hauthentic hk hgraph⟩

/-- Where every record is accepted, all of them are applied. -/
theorem AppliesUntil.of_accepted {records : List StructuralRecord} {count : Nat}
    {err : Option ReplayError} (h : AppliesUntil platform graph records final count err)
    (haccepted : applyRecords platform graph records = (next, none)) :
    final = next ∧ count = records.length ∧ err = none := by
  rw [← List.take_append_drop count records] at haccepted
  obtain ⟨middle, htaken, hdropped⟩ := rangeUntilError_append_eq_ok.mp haccepted
  cases h.applied.symm.trans htaken
  rcases err with _ | failure
  · have hcount := h.complete rfl
    rw [hcount, List.drop_length] at hdropped
    cases hdropped
    exact ⟨rfl, hcount, rfl⟩
  · obtain ⟨record, cause, hrecord, hrejected, -⟩ := h.rejected failure rfl
    obtain ⟨hlt, rfl⟩ := List.getElem?_eq_some_iff.mp hrecord
    rw [List.drop_eq_getElem_cons hlt, rangeUntilError_cons_of_error hrejected] at hdropped
    cases hdropped

section Golden

variable (golden : GoldenLedger)

/-- Another writer appends the revocation after the first scan. -/
def revocationAfterFirstScan : Nat → List (ValidatedRecord goldenPlatform)
  | 0 => [golden.revocation]
  | _ + 1 => []

theorem holds_goldenTable : (goldenTable golden).Holds goldenPlatform goldenGenesisFields.ledgerID
    [golden.genesis, golden.endorsement] := by
  have hholds := (records_goldenTable golden).holds goldenGenesisFields.ledgerID
  simpa [ledgerLog, sortBy] using hholds

theorem holds_afterFirstScan (scan : Nat) :
    (storeAt (goldenTable golden) (revocationAfterFirstScan golden) (scan + 1)).Holds
      goldenPlatform goldenGenesisFields.ledgerID golden.chain := by
  have hrecords : (storeAt (goldenTable golden) (revocationAfterFirstScan golden)
      (scan + 1)).Records goldenPlatform golden.chain := by
    induction scan with
    | zero => exact records_append_revocation golden (records_goldenTable golden)
    | succ scan ih => exact ih
  have hholds := hrecords.holds goldenGenesisFields.ledgerID
  simpa [ledgerLog, sortBy, GoldenLedger.chain] using hholds

theorem length_afterFirstScan_le (scan : Nat) :
    ((storeAt (goldenTable golden) (revocationAfterFirstScan golden) scan).ledgerRows
      goldenGenesisFields.ledgerID).length ≤ 3 := by
  cases scan with
  | zero =>
    rw [storeAt, holds_goldenTable]
    simp
  | succ scan =>
    rw [holds_afterFirstScan]
    simp [GoldenLedger.chain]

end Golden

/-- The golden ledger is replayed from its genesis record on, one record a page, while
its revocation is appended between the first scan and the second. -/
theorem goldenLedger_replayed :
    ∃ (golden : GoldenLedger) (revoked : Graph),
      (goldenTable golden).Holds goldenPlatform goldenGenesisFields.ledgerID
        [golden.genesis, golden.endorsement] ∧
      applyRecords goldenPlatform (newGraph goldenGenesisFields.ledgerID)
        (golden.chain.map ValidatedRecord.record) = (revoked, none) ∧
      (∀ batchSize fuel, 2 < fuel →
        replayFromStore goldenPlatform (fun _ => goldenTable golden) batchSize fuel
          (goldenGenesisGraph golden) = some ((goldenEndorsementGraph golden, 1), none)) ∧
      ∀ fuel, 2 ^ 64 ≤ fuel →
        replayFromStore goldenPlatform
          (storeAt (goldenTable golden) (revocationAfterFirstScan golden)) 1 fuel
          (goldenGenesisGraph golden) = some ((revoked, 2), none) := by
  obtain ⟨golden⟩ := goldenLedger_evaluates
  obtain ⟨revoked, hstarted, hendorsed, hrevoked⟩ := golden_projects golden
  have hstored := holds_goldenTable golden
  have hrows : ((goldenTable golden).ledgerRows goldenGenesisFields.ledgerID).map
      (fun row => row.sequenceNumber.toNat) = List.range' 1 2 := by
    rw [hstored]
    simp [rowOfRecord, List.range'_succ]
  obtain ⟨chain, hchain, hreplay⟩ := replay_paged goldenPlatform (goldenTable golden)
    goldenGenesisFields.ledgerID 2
    (fun row hrow _ => (records_goldenTable golden).authentic row hrow) hrows (by decide)
  obtain rfl := hchain.unique hstored
  obtain ⟨⟨final, count, err, happlies, hstatic, -⟩, hgrowing⟩ :=
    hreplay 1 (goldenGenesisGraph golden) (by decide)
      (rangeUntilError_cons_eq_ok.mpr ⟨_, hstarted, rfl⟩)
  have hone : applyRecords goldenPlatform (goldenGenesisGraph golden)
      [golden.endorsement.record] = (goldenEndorsementGraph golden, none) :=
    rangeUntilError_cons_eq_ok.mpr ⟨_, hendorsed, rfl⟩
  have htwo : applyRecords goldenPlatform (goldenGenesisGraph golden)
      [golden.endorsement.record, golden.revocation.record] = (revoked, none) :=
    rangeUntilError_cons_eq_ok.mpr ⟨_, hendorsed, rangeUntilError_cons_eq_ok.mpr ⟨_, hrevoked, rfl⟩⟩
  refine ⟨golden, revoked, hstored, rangeUntilError_cons_eq_ok.mpr ⟨_, hstarted, htwo⟩, ?_, ?_⟩
  · obtain ⟨rfl, rfl, rfl⟩ := happlies.of_accepted hone
    exact hstatic
  · have hshort : ∀ scan, ((storeAt (goldenTable golden) (revocationAfterFirstScan golden)
        scan).ledgerRows goldenGenesisFields.ledgerID).length < 2 ^ 64 - 1 := by
      intro scan
      have hle := length_afterFirstScan_le golden scan
      omega
    obtain ⟨last, later, final, count, err, hlast, hlater, -, happlies, hreplayed⟩ :=
      hgrowing (revocationAfterFirstScan golden) hshort 1
    -- a replay of the two records that the first scan sees would have counted one
    cases last with
    | zero =>
      obtain rfl := hlater.unique hstored
      obtain ⟨-, rfl, -⟩ := happlies.of_accepted hone
      simp at hlast
    | succ last =>
      obtain rfl := hlater.unique (holds_afterFirstScan golden last)
      obtain ⟨rfl, rfl, rfl⟩ := happlies.of_accepted htwo
      exact hreplayed

end AttributionChain.Projector
