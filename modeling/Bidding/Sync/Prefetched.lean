import Bidding.Sync.Uniqueness

/-!
# Prefetched candidates

The candidates fetched for a batch hold every stored row a record of the batch could conflict with, so
looking into them reports what asking the database reports. Assignments are the exception: only the
candidates have a rule about them.
-/

namespace Bidding.Uniqueness

open Foundations List
open Option hiding or_assoc

theorem exists_mem_chunks_iff {α : Type} {values : List α} {value : α} :
    (∃ chunk ∈ chunks values, value ∈ chunk) ↔ value ∈ values := by
  constructor
  · rintro ⟨chunk, hchunk, hvalue⟩
    obtain ⟨i, -, rfl⟩ := mem_map.1 hchunk
    exact mem_of_mem_drop (mem_of_mem_take hvalue)
  · intro hvalue
    obtain ⟨n, hn, rfl⟩ := mem_iff_getElem.1 hvalue
    have hpos : 0 < queryChunkSize := by decide
    have hmod := Nat.div_add_mod n queryChunkSize
    have hlt := Nat.mod_lt n hpos
    refine ⟨_, mem_map.2 ⟨n / queryChunkSize, mem_range.2 ?_, rfl⟩, ?_⟩
    · apply (Nat.div_lt_iff_lt_mul hpos).2
      have hceil := Nat.lt_div_mul_add hpos (a := values.length + (queryChunkSize - 1))
      omega
    · apply mem_iff_getElem.2
      have hlength : n % queryChunkSize
          < ((values.drop (queryChunkSize * (n / queryChunkSize))).take queryChunkSize).length := by
        rw [length_take, length_drop]
        omega
      refine ⟨n % queryChunkSize, hlength, ?_⟩
      simp only [getElem_take, getElem_drop, hmod]

theorem getD_foldl_appendTo {κ α : Type} [DecidableEq κ] (entries : List (κ × α)) (d : Dict κ (List α)) (key : κ) :
    ((entries.foldl appendTo d).get? key).getD [] = (d.get? key).getD [] ++ (entries.filter (·.1 = key)).map Prod.snd := by
  induction entries generalizing d with
  | nil => simp
  | cons entry entries ih =>
    rw [foldl_cons, ih, appendTo, Dict.get?_set]
    by_cases hkey : entry.1 = key
    · simp [hkey]
    · simp [hkey, Ne.symm hkey]

theorem mem_getD_foldl_appendTo {κ α : Type} [DecidableEq κ] {entries : List (κ × α)} {key : κ}
    {value : α} :
    value ∈ ((entries.foldl appendTo .empty).get? key).getD [] ↔ (key, value) ∈ entries := by
  rw [getD_foldl_appendTo]
  simp

section Agreement

variable {t : PyText} {store : Store} {organizationId : String} {batch : Batch}
  {prefetch direct : Planner} {table : DomainTable} {rule : UniquenessRule} {item : Fields}
  {value : String} {recordId rootId : Option String} {candidate : String × Option String} {a b : Option String} {id : String} {items : List Fields} {key : String × String × String}

/-! ## Candidates of a rule -/

def Holds (t : PyText) (organizationId : String) (rule : UniquenessRule) (value : String) (row : StoredRecord) : Prop :=
  row.organizationId = organizationId ∧ (rule.archived → row.archived = false) ∧
    row.normalized t rule.column rule.caseInsensitive = some value

def candidateOf (rule : UniquenessRule) (row : StoredRecord) : String × Option String :=
  (row.id, if rule.lineageScoped then row.idGoc else none)

theorem mem_fetchChunk_iff {chunk : List String} {key : DomainTable × Token × String} :
    (key, candidate) ∈ fetchChunk t prefetch store organizationId table rule chunk ↔
      ∃ row ∈ store table, ∃ value ∈ chunk, Holds t organizationId rule value row ∧
        key = (table, rule.token, value) ∧ candidate = candidateOf rule row := by
  unfold fetchChunk
  dsimp only
  rw [mem_filterMap]
  constructor
  · rintro ⟨row, hrow, hentry⟩
    rw [(prefetch.perm _ _).mem_iff, mem_filter, decide_eq_true_iff] at hrow
    obtain ⟨hmem, horg, harchived, value, hchunk, hvalue⟩ := hrow
    rw [hvalue, map_some, some.injEq, Prod.mk.injEq] at hentry
    exact ⟨row, hmem, value, hchunk, ⟨horg, harchived, hvalue⟩, hentry.1.symm, hentry.2.symm⟩
  · rintro ⟨row, hmem, value, hchunk, ⟨horg, harchived, hvalue⟩, rfl, rfl⟩
    refine ⟨row, ?_, ?_⟩
    · rw [(prefetch.perm _ _).mem_iff, mem_filter, decide_eq_true_iff]
      exact ⟨hmem, horg, harchived, value, hchunk, hvalue⟩
    · rw [hvalue, map_some]
      rfl

section

variable (hrule : rule ∈ rulesByTable table)
include hrule

theorem rule_eq_of_token {other : UniquenessRule}
    (hother : other ∈ rulesByTable table) (h : rule.token = other.token) : rule = other := by
  cases table <;> simp only [rulesByTable, mem_cons, not_mem_nil, or_false] at hrule hother
  all_goals first
    | exact hrule.trans hother.symm
    | obtain rfl | rfl := hrule <;> obtain rfl | rfl := hother <;> first | rfl | exact (nomatch h)

theorem mem_ruledTables : table ∈ ruledTables := by
  cases table <;> first | exact absurd hrule not_mem_nil | simp [ruledTables]

theorem mem_candidates_iff (hvalue : value ∈ ruleValues t rule (batch table)) :
    candidate ∈ ((buildDomainUniquenessContext t prefetch store organizationId batch).candidates.get?
        (table, rule.token, value)).getD [] ↔
      ∃ row ∈ store table, Holds t organizationId rule value row ∧ candidate = candidateOf rule row := by
  unfold buildDomainUniquenessContext
  dsimp only
  rw [mem_getD_foldl_appendTo, fetchCandidates]
  simp only [mem_flatMap, mem_fetchChunk_iff, Prod.mk.injEq]
  constructor
  · rintro ⟨table', -, other, hother, chunk, -, row, hrow, value', -, hholds, ⟨rfl, htoken, rfl⟩, rfl⟩
    obtain rfl := rule_eq_of_token hrule hother htoken
    exact ⟨row, hrow, hholds, rfl⟩
  · rintro ⟨row, hrow, hholds, rfl⟩
    obtain ⟨chunk, hchunk, hmem⟩ := exists_mem_chunks_iff.2 hvalue
    exact ⟨table, mem_ruledTables hrule, rule, hrule, chunk, hchunk, row, hrow, value, hmem, hholds, ⟨rfl, rfl, rfl⟩, rfl⟩

end

theorem mem_ruleValues (hlower : ∀ text, t.lower text = "" → text = "") (hitem : item ∈ batch table)
    (hvalue : fieldValue item rule.itemKeys ≠ "") (hstripped : pyStrip (fieldValue item rule.itemKeys) ≠ "") :
    normalizedValue t rule.caseInsensitive (fieldValue item rule.itemKeys) ∈ ruleValues t rule (batch table) := by
  unfold ruleValues
  rw [mem_eraseDups, mem_filter]
  refine ⟨mem_map.2 ⟨_, mem_filter.2 ⟨mem_map.2 ⟨item, hitem, rfl⟩, ?_⟩, rfl⟩, ?_⟩
  · simpa using hvalue
  · have hnormalized : normalizedValue t rule.caseInsensitive (fieldValue item rule.itemKeys) ≠ "" := by
      unfold normalizedValue
      dsimp only
      split
      · intro hempty
        exact hstripped (hlower _ hempty)
      · exact hstripped
    simpa using hnormalized

theorem pyStrip_fieldValue (item : Fields) (keys : List String) : pyStrip (fieldValue item keys) = fieldValue item keys := by
  induction keys with
  | nil => rfl
  | cons key keys ih =>
    unfold fieldValue
    dsimp only
    split
    · unfold Scalar.orEmptyText
      split
      · exact pyStrip_pyStrip _
      · rfl
    · exact ih

/-- Some stored row conflicts with the record in the field of the rule. -/
def HasConflict (t : PyText) (store : Store) (organizationId : String) (table : DomainTable)
    (rule : UniquenessRule) (value : String) (recordId rootId : Option String) : Prop :=
  ∃ record, recordId = some record ∧ ∃ row ∈ store table,
    Holds t organizationId rule (normalizedValue t rule.caseInsensitive value) row ∧
      candidateConflicts rule record rootId (candidateOf rule row) = true

theorem contextConflictingId_isSome_iff (hrule : rule ∈ rulesByTable table)
    (hvalue : normalizedValue t rule.caseInsensitive value ∈ ruleValues t rule (batch table)) :
    (contextConflictingId t (buildDomainUniquenessContext t prefetch store organizationId batch) table rule
      value recordId rootId).isSome ↔
        HasConflict t store organizationId table rule value recordId rootId := by
  cases recordId with
  | none => simp [contextConflictingId, HasConflict]
  | some record =>
    unfold contextConflictingId HasConflict
    dsimp only
    rw [isSome_map, find?_isSome]
    constructor
    · rintro ⟨candidate, hcandidate, hconflicts⟩
      obtain ⟨row, hrow, hholds, rfl⟩ := (mem_candidates_iff hrule hvalue).1 hcandidate
      exact ⟨record, rfl, row, hrow, hholds, hconflicts⟩
    · rintro ⟨record', hrecord, row, hrow, hholds, hconflicts⟩
      cases hrecord
      exact ⟨_, (mem_candidates_iff hrule hvalue).2 ⟨row, hrow, hholds, rfl⟩, hconflicts⟩

theorem candidateConflicts_iff {row : StoredRecord} {record : String} :
    candidateConflicts rule record rootId (candidateOf rule row) = true ↔
      sqlDiffers (some row.id) (some record) = true ∧
        (rule.lineageScoped = true → row.idGoc = none ∨ sqlDiffers row.idGoc rootId = true) := by
  unfold candidateConflicts candidateOf sqlDiffers
  by_cases hid : row.id = record
  · simp [hid]
  · cases hscoped : rule.lineageScoped with
    | false => simp [hid]
    | true => cases rootId <;> cases hroot : row.idGoc <;> simp [hid]

theorem isSome_head?_iff {α : Type} {l : List α} : l.head?.isSome ↔ ∃ a, a ∈ l := by cases l <;> simp

theorem conflictingId_isSome_iff (rule : UniquenessRule) :
    (conflictingId t direct store organizationId table rule.column rule.caseInsensitive rule.archived
      rule.lineageScoped value recordId rootId).isSome ↔
        HasConflict t store organizationId table rule value recordId rootId := by
  unfold conflictingId HasConflict
  dsimp only
  rw [isSome_map, isSome_head?_iff]
  simp only [(direct.perm _ _).mem_iff, mem_filter, decide_eq_true_iff, candidateConflicts_iff]
  constructor
  · rintro ⟨row, hrow, horg, harchived, hvalue, hid, hroot⟩
    cases recordId with
    | none => exact absurd hid (by simp [sqlDiffers])
    | some record => exact ⟨record, rfl, row, hrow, ⟨horg, harchived, hvalue⟩, hid, hroot⟩
  · rintro ⟨record, rfl, row, hrow, ⟨horg, harchived, hvalue⟩, hid, hroot⟩
    exact ⟨row, hrow, horg, harchived, hvalue, hid, hroot⟩

/-- Two conflicts are reported alike: both are there or neither, and an id that is there is not blank. -/
structure SameReport (a b : Option String) : Prop where
  isSome_iff : a.isSome ↔ b.isSome
  left_ne : ∀ id, a = some id → id ≠ ""
  right_ne : ∀ id, b = some id → id ≠ ""

theorem SameReport.detail (h : SameReport a b) (message : String) :
    (reportDetail message a).map UniquenessError.message = (reportDetail message b).map UniquenessError.message := by
  have hsome := h.isSome_iff
  cases a with
  | none =>
    cases b with
    | none => rfl
    | some id => exact absurd (hsome.2 rfl) (by simp)
  | some id =>
    cases b with
    | none => exact absurd (hsome.1 rfl) (by simp)
    | some other => simp [reportDetail, h.left_ne id rfl, h.right_ne other rfl, UniquenessError.message]

theorem SameReport.text (h : SameReport a b) (message : String) : (reportText message a).map UniquenessError.message
    = (reportText message (found b)).map UniquenessError.message := by
  have hsome := h.isSome_iff
  cases a with
  | none =>
    cases b with
    | none => rfl
    | some id => exact absurd (hsome.2 rfl) (by simp)
  | some id =>
    cases b with
    | none => exact absurd (hsome.1 rfl) (by simp)
    | some other => simp [reportText, found, h.left_ne id rfl]

theorem contextConflictingId_ne (hrule : rule ∈ rulesByTable table)
    (hvalue : normalizedValue t rule.caseInsensitive value ∈ ruleValues t rule (batch table))
    (h : contextConflictingId t (buildDomainUniquenessContext t prefetch store organizationId batch) table
      rule value recordId rootId = some id) : id ≠ "" := by
  cases recordId with
  | none => exact (nomatch h)
  | some record =>
    obtain ⟨candidate, hfind, rfl⟩ := map_eq_some_iff.1 h
    obtain ⟨row, -, -, rfl⟩ := (mem_candidates_iff hrule hvalue).1 (mem_of_find?_eq_some hfind)
    exact row.id_ne

theorem conflictingId_ne {column id : String} {caseInsensitive active lineage : Bool}
    (h : conflictingId t direct store organizationId table column caseInsensitive active lineage value
      recordId rootId = some id) : id ≠ "" := by
  obtain ⟨row, -, rfl⟩ := map_eq_some_iff.1 h
  exact row.id_ne

theorem sameReport (token : Token) (hlower : ∀ text, t.lower text = "" → text = "")
    (hitem : item ∈ batch table) (hfind : (rulesByTable table).find? (·.token = token) = some rule) : SameReport
      (if fieldValue item rule.itemKeys = "" then none
        else ((rulesByTable table).find? (·.token = token)).bind fun rule' =>
          contextConflictingId t (buildDomainUniquenessContext t prefetch store organizationId batch) table
            rule' (fieldValue item rule.itemKeys) recordId rootId)
      (if fieldValue item rule.itemKeys = "" then none
        else conflictingId t direct store organizationId table rule.column rule.caseInsensitive rule.archived
          rule.lineageScoped (fieldValue item rule.itemKeys) recordId rootId) := by
  by_cases hblank : fieldValue item rule.itemKeys = ""
  · rw [if_pos hblank, if_pos hblank]
    exact ⟨Iff.rfl, fun id h => (nomatch h), fun id h => (nomatch h)⟩
  rw [if_neg hblank, if_neg hblank, hfind, bind_some]
  have hrule : rule ∈ rulesByTable table := mem_of_find?_eq_some hfind
  have hvalue := mem_ruleValues (t := t) hlower hitem hblank (by rw [pyStrip_fieldValue]; exact hblank)
  refine ⟨?_, ?_, ?_⟩
  · rw [contextConflictingId_isSome_iff hrule hvalue, conflictingId_isSome_iff]
  · intro id h
    exact contextConflictingId_ne hrule hvalue h
  · intro id h
    exact conflictingId_ne h

/-! ## Assignments -/

/-- Another assignment has the key of the record: a stored one, or one of the batch. -/
def OtherAssignment (store : Store) (organizationId : String) (items : List Fields) (item : Fields)
    (recordId : Option String) : Prop :=
  ∃ key, assignmentKey item = some key ∧
    ((∃ row ∈ store .phanCongNhanSu, row.organizationId = organizationId ∧
        row.assignmentKey = some key ∧ row.id ≠ recordId.getD "None") ∨
      ∃ other ∈ items, assignmentKey other = some key ∧ itemId other ≠ "" ∧
        itemId other ≠ recordId.getD "None")

theorem mem_fetchAssignments_iff
    (hkey : key ∈ items.filterMap assignmentKey) : (key, id) ∈ fetchAssignments prefetch store organizationId items ↔
      ∃ row ∈ store .phanCongNhanSu, row.organizationId = organizationId ∧ row.assignmentKey = some key ∧
        row.id = id := by
  unfold fetchAssignments
  dsimp only
  simp only [mem_flatMap, mem_filterMap, (prefetch.perm _ _).mem_iff, mem_filter,
    decide_eq_true_iff, map_eq_some_iff, Prod.mk.injEq]
  constructor
  · rintro ⟨chunk, -, row, ⟨hrow, horg, -⟩, key', hrowKey, rfl, rfl⟩
    exact ⟨row, hrow, horg, hrowKey, rfl⟩
  · rintro ⟨row, hrow, horg, hrowKey, rfl⟩
    obtain ⟨chunk, hchunk, hmem⟩ := exists_mem_chunks_iff.2 (mem_eraseDups.2 hkey)
    exact ⟨chunk, hchunk, row, ⟨hrow, horg, key, hmem, hrowKey⟩, key, hrowKey, rfl, rfl⟩

theorem mem_foldl_addAssignment
    {candidates : Dict (String × String × String) (List String)} :
    id ∈ ((items.foldl addAssignment candidates).get? key).getD [] ↔
      id ∈ (candidates.get? key).getD [] ∨
        ∃ other ∈ items, assignmentKey other = some key ∧ itemId other ≠ "" ∧ itemId other = id := by
  induction items generalizing candidates with
  | nil => simp
  | cons item items ih =>
    have hstep : id ∈ ((addAssignment candidates item).get? key).getD [] ↔
        id ∈ (candidates.get? key).getD [] ∨
          (assignmentKey item = some key ∧ itemId item ≠ "" ∧ itemId item = id) := by
      unfold addAssignment
      cases hkey : assignmentKey item with
      | none => simp
      | some itemKey =>
        by_cases hblank : itemId item = ""
        · simp [hblank]
        dsimp only
        rw [if_neg hblank, Dict.get?_set]
        by_cases hsame : key = itemKey
        · subst hsame
          simp only [if_true, getD_some, ne_eq, hblank, not_false_eq_true, true_and]
          split
          · rename_i hknown
            constructor
            · exact Or.inl
            · rintro (h | rfl)
              · exact h
              · exact hknown
          · simp [eq_comm]
        · simp [hsame, Ne.symm hsame]
    rw [foldl_cons, ih, hstep, or_assoc]
    simp

theorem assignment_reported_iff (hitem : item ∈ batch .phanCongNhanSu) :
    validateDomainUniquenessFromContext t (buildDomainUniquenessContext t prefetch store organizationId batch)
        .phanCongNhanSu item recordId rootId ≠ [] ↔
      OtherAssignment store organizationId (batch .phanCongNhanSu) item recordId := by
  unfold validateDomainUniquenessFromContext OtherAssignment
  dsimp only
  cases hkey : assignmentKey item with
  | none => simp
  | some key =>
    have hmem : ∀ id, id ∈ ((buildDomainUniquenessContext t prefetch store organizationId
          batch).assignmentCandidates.get? key).getD [] ↔
        (∃ row ∈ store .phanCongNhanSu, row.organizationId = organizationId ∧
            row.assignmentKey = some key ∧ row.id = id) ∨
          ∃ other ∈ batch .phanCongNhanSu, assignmentKey other = some key ∧ itemId other ≠ "" ∧
            itemId other = id := by
      intro id
      rw [buildDomainUniquenessContext, mem_foldl_addAssignment, mem_getD_foldl_appendTo,
        mem_fetchAssignments_iff (mem_filterMap.2 ⟨item, hitem, hkey⟩)]
    rw [bind_some]
    constructor
    · intro hreport
      cases hfind : (((buildDomainUniquenessContext t prefetch store organizationId
          batch).assignmentCandidates.get? key).getD []).find? (· ≠ recordId.getD "None") with
      | none => exact absurd (by rw [hfind]) hreport
      | some id =>
        have hne : id ≠ recordId.getD "None" := by simpa using find?_some hfind
        obtain ⟨row, hrow, horg, hrowKey, rfl⟩ | ⟨other, hother, hotherKey, hid, rfl⟩ :=
          (hmem id).1 (mem_of_find?_eq_some hfind)
        · exact ⟨key, rfl, Or.inl ⟨row, hrow, horg, hrowKey, hne⟩⟩
        · exact ⟨key, rfl, Or.inr ⟨other, hother, hotherKey, hid, hne⟩⟩
    · rintro ⟨key', hkey', hother⟩
      cases hkey'
      have hsome : ((((buildDomainUniquenessContext t prefetch store organizationId
          batch).assignmentCandidates.get? key).getD []).find? (· ≠ recordId.getD "None")).isSome := by
        apply find?_isSome.2
        obtain ⟨row, hrow, horg, hrowKey, hne⟩ | ⟨other, hother, hotherKey, hid, hne⟩ := hother
        · exact ⟨row.id, (hmem _).2 (Or.inl ⟨row, hrow, horg, hrowKey, rfl⟩), by simpa using hne⟩
        · exact ⟨itemId other, (hmem _).2 (Or.inr ⟨other, hother, hotherKey, hid, rfl⟩), by simpa using hne⟩
      obtain ⟨id, hfind⟩ := isSome_iff_exists.1 hsome
      have hid : id ≠ "" := by
        obtain ⟨row, -, -, -, rfl⟩ | ⟨other, -, -, hid, rfl⟩ :=
          (hmem id).1 (mem_of_find?_eq_some hfind)
        · exact row.id_ne
        · exact hid
      rw [hfind]
      simp [hid]

theorem messages_eq (hlower : ∀ text, t.lower text = "" → text = "") (hitem : item ∈ batch table)
    (htable : table ≠ .phanCongNhanSu) :
    (validateDomainUniquenessFromContext t (buildDomainUniquenessContext t prefetch store organizationId batch)
        table item recordId rootId).map UniquenessError.message
      = (validateDomainUniqueness t direct store organizationId table item recordId rootId).map UniquenessError.message := by
  cases table with
  | chuDauTu =>
    rw [validateDomainUniquenessFromContext, validateDomainUniqueness, map_append, map_append]
    exact congrArg₂ (· ++ ·) ((sameReport .code hlower hitem rfl).detail _) ((sameReport .taxCode hlower hitem rfl).detail _)
  | nhaThau =>
    rw [validateDomainUniquenessFromContext, validateDomainUniqueness, map_append, map_append]
    exact congrArg₂ (· ++ ·) ((sameReport .code hlower hitem rfl).detail _) ((sameReport .taxCode hlower hitem rfl).detail _)
  | keHoachLcnt => exact (sameReport .code hlower hitem rfl).text _
  | goiThau => exact (sameReport .code hlower hitem rfl).text _
  | chuyenGia => exact (sameReport .citizenId hlower hitem rfl).text _
  | hopDong => exact (sameReport .number hlower hitem rfl).text _
  | danhMucTrangThaiHopDong => exact (sameReport .name hlower hitem rfl).text _
  | phanCongNhanSu => exact absurd rfl htable
  | other name => rfl

end Agreement

/-- For every record of a batch, and in whatever order the rows come, the two validators report the same
messages, unless the record is an assignment whose key another assignment has: only the candidates report
that one. -/
theorem sameMessages_iff (t : PyText) (hlower : ∀ text, t.lower text = "" → text = "") (store : Store)
    (organizationId : String) (batch : Batch) (prefetch direct : Planner) (table : DomainTable)
    (item : Fields) (hitem : item ∈ batch table) (recordId rootId : Option String) :
    (validateDomainUniquenessFromContext t (buildDomainUniquenessContext t prefetch store organizationId batch)
        table item recordId rootId).map UniquenessError.message
      = (validateDomainUniqueness t direct store organizationId table item recordId rootId).map UniquenessError.message ↔
      ¬ (table = .phanCongNhanSu ∧
        OtherAssignment store organizationId (batch .phanCongNhanSu) item recordId) := by
  by_cases htable : table = .phanCongNhanSu
  · subst htable
    have hreported : validateDomainUniquenessFromContext t
        (buildDomainUniquenessContext t prefetch store organizationId batch) .phanCongNhanSu item recordId
        rootId ≠ [] ↔ OtherAssignment store organizationId (batch .phanCongNhanSu) item recordId :=
      assignment_reported_iff hitem
    have hdirect : validateDomainUniqueness t direct store organizationId .phanCongNhanSu item recordId rootId = [] := rfl
    rw [hdirect, map_nil, map_eq_nil_iff, ← hreported]
    simp
  · constructor
    · intro _ h
      exact htable h.1
    · intro _
      exact messages_eq hlower hitem htable

def inTable {α : Type} (table : DomainTable) (values : List α) : DomainTable → List α :=
  fun table' => if table' = table then values else []

def contractItem : Fields := .ofList [("id", .str "hd-2"), ("soHopDong", .str "HD01")]

def storedContract : StoredRecord := ⟨"org-1", "hd-1", by decide, none, false, .ofList [("so_hop_dong", "HD01")]⟩

/-- A contract with the number of a stored one is reported by both. -/
theorem sameMessages_iff_contract :
    let store := inTable .hopDong [storedContract]
    let context := buildDomainUniquenessContext .plain .stored store "org-1" (inTable .hopDong [contractItem])
    let prefetched := validateDomainUniquenessFromContext .plain context .hopDong contractItem (some "hd-2") none
    prefetched ≠ [] ∧ prefetched.map UniquenessError.message =
      (validateDomainUniqueness .plain .stored store "org-1" .hopDong contractItem (some "hd-2") none).map
        UniquenessError.message :=
  ⟨by decide, (sameMessages_iff .plain (fun _ h => h) _ _ (inTable .hopDong [contractItem]) _ _ _ _ (mem_singleton.2 rfl)
    _ _).2 fun h => nomatch h.1⟩

def assignmentItem : Fields :=
  .ofList [("id", .str "asg-incoming"), ("empId", .str "user-1"), ("targetId", .str "plan-1"), ("type", .str "kehoach")]

def storedAssignment : StoredRecord where
  organizationId := "org-1"
  id := "asg-existing"
  id_ne := by decide
  idGoc := none
  archived := false
  columns := .ofList [("id_nhan_vien", "user-1"), ("id_muc_tieu", "plan-1"), ("loai_doi_tuong", "kehoach")]

/-- The stored assignment is reported from the candidates only. -/
theorem assignment_reported_once : (validateDomainUniquenessFromContext .plain (buildDomainUniquenessContext .plain .stored
        (inTable .phanCongNhanSu [storedAssignment]) "org-1" (inTable .phanCongNhanSu [assignmentItem]))
        .phanCongNhanSu assignmentItem (some "asg-incoming") (some "asg-incoming")) = [.assignment "asg-existing"] ∧
    validateDomainUniqueness .plain .stored (inTable .phanCongNhanSu [storedAssignment]) "org-1"
      .phanCongNhanSu assignmentItem (some "asg-incoming") (some "asg-incoming") = [] := by
  decide

end Bidding.Uniqueness
