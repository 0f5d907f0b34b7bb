import Bidding.Clarifications.Append

/-!
# What an append plans

A source row is skipped, met by a row that was imported, met by a row without origin, or planned. So the planned ids
of named source rows are new, every planned row has a source row of its version, and a second append over the stored
plan finds every source row met.
-/

namespace Bidding.Clarifications

open Foundations List

section Append

variable {input : MergeInput} {kind : Kind} {α : Type} {item : SourceItem} {items : List SourceItem} {p : α → Bool}
  {o : Option α}

/-! ## One source row -/

def Usable (input : MergeInput) (item : SourceItem) : Prop :=
  formatForDatetimeLocal input.parseOther item.2.time ≠ [] ∧ normalizedContent item.2.content ≠ []

def itemIdentity (input : MergeInput) (item : SourceItem) : List Char × List Char :=
  contentIdentity input (formatForDatetimeLocal input.parseOther item.2.time) item.2.content

def itemKeys (input : MergeInput) (kind : Kind) (item : SourceItem) : List (List Char × List Char) :=
  ((rowIdOf input kind item).map fun id => (item.1, id)).toList

def plannedRow (input : MergeInput) (kind : Kind) (state : MergeState) (item : SourceItem) : PlannedRow :=
  ⟨(rowIdOf input kind item).getD (rowIdStart ++ (input.uuid state.generated).1), kind,
    normalizeDatetimeValue input.parseOther (formatForDatetimeLocal input.parseOther item.2.time), item.2.content,
    formatForDatetimeLocal input.parseOther item.2.time⟩

def Unmet (input : MergeInput) (kind : Kind) (state : MergeState) (item : SourceItem) : Prop :=
  ∀ id, rowIdOf input kind item = some id → (item.1, id) ∉ state.seenKeys ∧ id ∉ state.currentIds

/-- What the merge can do with a source row. -/
inductive MergeStep (input : MergeInput) (kind : Kind) (state : MergeState) (item : SourceItem) : MergeState → Prop
  | skipped (h : ¬Usable input item) : MergeStep input kind state item state
  | seen (h : Usable input item) (id : List Char) (hid : rowIdOf input kind item = some id)
      (hseen : (item.1, id) ∈ state.seenKeys) : MergeStep input kind state item state
  | known (h : Usable input item) (id : List Char) (hid : rowIdOf input kind item = some id)
      (hfresh : (item.1, id) ∉ state.seenKeys) (hknown : id ∈ state.currentIds) :
      MergeStep input kind state item { state with seenKeys := state.seenKeys ++ itemKeys input kind item }
  | consumed (h : Usable input item) (hunmet : Unmet input kind state item) (first : List Char)
      (rest : List (List Char)) (hqueue : state.unkeyed.get? (itemIdentity input item) = some (first :: rest)) :
      MergeStep input kind state item { state with
        unkeyed := state.unkeyed.set (itemIdentity input item) rest
        seenKeys := state.seenKeys ++ itemKeys input kind item }
  | planned (h : Usable input item) (hunmet : Unmet input kind state item)
      (hqueue : (state.unkeyed.get? (itemIdentity input item)).getD [] = []) :
      MergeStep input kind state item { state with
        currentIds := state.currentIds ++ [(plannedRow input kind state item).id]
        seenKeys := state.seenKeys ++ itemKeys input kind item
        planned := state.planned ++ [plannedRow input kind state item]
        generated := if (rowIdOf input kind item).isSome then state.generated else state.generated + 1 }

theorem any_some (h : o.any p = true) : ∃ a, o = some a ∧ p a = true := by
  cases o with
  | none => cases h
  | some a => exact ⟨a, rfl, h⟩

theorem not_any (h : ¬o.any p = true) (a : α) (ha : o = some a) : ¬p a = true := by
  subst ha
  exact h

theorem mergeSource_step (input : MergeInput) (kind : Kind) (state : MergeState) (item : SourceItem) :
    MergeStep input kind state item (mergeSource input kind state item) := by
  by_cases h : formatForDatetimeLocal input.parseOther item.2.time = [] ∨ normalizedContent item.2.content = []
  · have hsame : mergeSource input kind state item = state := if_pos h
    rw [hsame]
    exact MergeStep.skipped fun husable => h.elim husable.1 husable.2
  · have husable : Usable input item := not_or.mp h
    unfold mergeSource
    dsimp only
    rw [if_neg h]
    by_cases hseen : ((rowIdOf input kind item).any fun id => decide ((item.1, id) ∈ state.seenKeys)) = true
    · obtain ⟨id, hid, hmem⟩ := any_some hseen
      rw [if_pos hseen]
      exact MergeStep.seen husable id hid (of_decide_eq_true hmem)
    · rw [if_neg hseen]
      by_cases hknown : ((rowIdOf input kind item).any fun id => decide (id ∈ state.currentIds)) = true
      · obtain ⟨id, hid, hmem⟩ := any_some hknown
        have hfresh := not_any hseen id hid
        rw [if_pos hknown]
        exact MergeStep.known husable id hid (fun hmem => hfresh (decide_eq_true hmem)) (of_decide_eq_true hmem)
      · have hunmet : Unmet input kind state item := fun id hid =>
          ⟨fun hmem => not_any hseen id hid (decide_eq_true hmem), fun hmem => not_any hknown id hid (decide_eq_true hmem)⟩
        rw [if_neg hknown]
        have hplan (hempty : (state.unkeyed.get? (itemIdentity input item)).getD [] = []) :=
          MergeStep.planned husable hunmet hempty
        cases hqueue : state.unkeyed.get? (itemIdentity input item) with
        | none =>
          have hstep := hplan (by rw [hqueue]; rfl)
          unfold itemIdentity at hqueue
          rw [hqueue]
          exact hstep
        | some queue =>
          cases queue with
          | nil =>
            have hstep := hplan (by rw [hqueue]; rfl)
            unfold itemIdentity at hqueue
            rw [hqueue]
            exact hstep
          | cons first rest =>
            have hstep := MergeStep.consumed husable hunmet first rest hqueue
            unfold itemIdentity at hqueue
            rw [hqueue]
            exact hstep

/-! ## Ids -/

theorem hexDigits_contains (digit : Fin 16) : "0123456789abcdef".toList.contains (Nat.digitChar digit.val) = true := by
  revert digit
  decide

theorem importedRowId_localRowId (version identity : List Char) :
    importedRowId (localRowId input kind version identity) = true := by
  have htake : (localRowId input kind version identity).take 3 = rowIdStart := rfl
  have hdrop : (localRowId input kind version identity).drop 3 = (input.sha256 (input.payload kind version identity)).hex :=
    rfl
  have hlength : (input.sha256 (input.payload kind version identity)).hex.length = 64 := by
    unfold Digest.hex
    rw [length_map]
    exact (input.sha256 _).2
  have hall : (input.sha256 (input.payload kind version identity)).hex.all ("0123456789abcdef".toList.contains ·) = true := by
    rw [all_eq_true]
    intro c hc
    obtain ⟨digit, -, rfl⟩ := mem_map.mp hc
    exact hexDigits_contains digit
  unfold importedRowId
  rw [htake, hdrop, hlength, hall]
  rfl

theorem importedRowId_of_rowIdOf {id : List Char} (h : rowIdOf input kind item = some id) : importedRowId id = true := by
  unfold rowIdOf at h
  split at h
  · cases h
  · rw [← Option.some.inj h]
    exact importedRowId_localRowId _ _

theorem importedRowId_random (uuid : Uuid) : importedRowId (rowIdStart ++ uuid.1) = false := by
  have hdrop : (rowIdStart ++ uuid.1).drop 3 = uuid.1 := rfl
  unfold importedRowId
  rw [hdrop, uuid.2]
  simp

theorem importedRowId_plannedRow (state : MergeState) (item : SourceItem) :
    importedRowId (plannedRow input kind state item).id = (rowIdOf input kind item).isSome := by
  unfold plannedRow
  dsimp only
  cases hid : rowIdOf input kind item with
  | none => exact importedRowId_random _
  | some id => exact importedRowId_of_rowIdOf hid

/-- What a merge has planned so far. -/
structure MergePlan (input : MergeInput) (kind : Kind) (start state : MergeState) (items : List SourceItem) : Prop where
  ids : state.currentIds = start.currentIds ++ state.planned.map PlannedRow.id
  keyed : ((state.planned.map PlannedRow.id).filter importedRowId).Nodup
  fresh : ∀ id ∈ state.planned.map PlannedRow.id, importedRowId id = true → id ∉ start.currentIds
  rows : ∀ row ∈ state.planned, ∃ before, ∃ item ∈ items, Usable input item ∧ row = plannedRow input kind before item

theorem MergePlan.start {start : MergeState} (h : start.planned = []) : MergePlan input kind start start [] := by
  constructor
  · rw [h]
    exact (append_nil _).symm
  · rw [h]
    exact nodup_nil
  · rw [h]
    exact fun _ hmem => absurd hmem not_mem_nil
  · rw [h]
    exact fun _ hmem => absurd hmem not_mem_nil

/-- An item adds at most one row to the plan, under an id no other row has. -/
theorem MergePlan.step {start state : MergeState} (h : MergePlan input kind start state items)
    (item : SourceItem) : MergePlan input kind start (mergeSource input kind state item) (items ++ [item]) := by
  have hmore : ∀ row ∈ state.planned, ∃ before, ∃ item' ∈ items ++ [item], Usable input item' ∧
      row = plannedRow input kind before item' := by
    intro row hrow
    obtain ⟨before, item', hmem, hspec⟩ := h.rows row hrow
    exact ⟨before, item', mem_append_left _ hmem, hspec⟩
  have hstep := mergeSource_step input kind state item
  generalize mergeSource input kind state item = next at hstep ⊢
  cases hstep with
  | skipped _ => exact ⟨h.ids, h.keyed, h.fresh, hmore⟩
  | seen _ id _ _ => exact ⟨h.ids, h.keyed, h.fresh, hmore⟩
  | known _ id _ _ _ => exact ⟨h.ids, h.keyed, h.fresh, hmore⟩
  | consumed _ _ first rest _ => exact ⟨h.ids, h.keyed, h.fresh, hmore⟩
  | planned husable hunmet _ =>
    have hnew : importedRowId (plannedRow input kind state item).id = true →
        (plannedRow input kind state item).id ∉ state.currentIds := by
      intro himported
      rw [importedRowId_plannedRow] at himported
      obtain ⟨id, hid⟩ := Option.isSome_iff_exists.mp himported
      have hrow : (plannedRow input kind state item).id = id := by
        unfold plannedRow
        rw [hid]
        rfl
      rw [hrow]
      exact (hunmet id hid).2
    constructor
    · show state.currentIds ++ _ = _
      rw [h.ids, map_append, append_assoc]
      rfl
    · show (List.filter importedRowId ((state.planned ++ [_]).map PlannedRow.id)).Nodup
      rw [map_append, filter_append, map_singleton]
      by_cases himported : importedRowId (plannedRow input kind state item).id = true
      · rw [filter_cons_of_pos himported, nodup_append]
        refine ⟨h.keyed, nodup_singleton _, fun id hid id' hid' heq => ?_⟩
        rw [filter_nil, mem_singleton] at hid'
        apply hnew himported
        rw [h.ids, ← hid', ← heq]
        exact mem_append_right _ (mem_of_mem_filter hid)
      · rw [filter_cons_of_neg himported, filter_nil, append_nil]
        exact h.keyed
    · intro id hid himported
      rw [map_append, mem_append] at hid
      rcases hid with hearlier | hlast
      · exact h.fresh id hearlier himported
      rw [mem_singleton.mp hlast] at himported ⊢
      intro hmem
      apply hnew himported
      rw [h.ids]
      exact mem_append_left _ hmem
    · intro row hrow
      rcases mem_append.mp hrow with hearlier | hlast
      · exact hmore row hearlier
      · rw [mem_singleton.mp hlast]
        exact ⟨state, item, mem_append_right _ (mem_singleton_self _), husable, rfl⟩

theorem MergePlan.foldl {start state : MergeState} (h : MergePlan input kind start state items) (rest : List SourceItem) :
    MergePlan input kind start (rest.foldl (mergeSource input kind) state) (items ++ rest) := by
  induction rest generalizing state items with
  | nil =>
    rw [append_nil]
    exact h
  | cons item rest ih =>
    have hnext := ih (h.step item)
    rw [append_assoc] at hnext
    exact hnext

theorem mergeKind_plan (input : MergeInput) (kind : Kind) (current : List StoredRow)
    (versions : List (List Char × SourceRows)) (generated : ℕ) :
    MergePlan input kind (mergeStart input (current.filter fun row => row.loai = kind) generated)
      (mergeKind input kind current versions generated) (sourceItems versions kind) :=
  (MergePlan.start rfl).foldl (sourceItems versions kind)

/-! ## A second merge -/

variable (unkeyed : Dict (List Char × List Char) (List (List Char))) {state : MergeState} {q : List Char × List Char} {stored : List (List Char)} {first second : MergeState} {row : PlannedRow} {current : List StoredRow}

def left (q : List Char × List Char) : ℕ :=
  ((unkeyed.get? q).getD []).length

theorem left_set (q q' : List Char × List Char)
    (ids : List (List Char)) : left (unkeyed.set q ids) q' = if q' = q then ids.length else left unkeyed q' := by
  unfold left
  rw [Dict.get?_set]
  split
  · rfl
  · rfl

def storedFor (input : MergeInput) (q : List Char × List Char) (row : StoredRow) : Bool :=
  unkeyedRow row && decide (contentIdentity input row.thoiGian row.noiDung = q)

theorem left_addUnkeyed (row : StoredRow) (q : List Char × List Char) :
    left (addUnkeyed input unkeyed row) q = left unkeyed q + if storedFor input q row then 1 else 0 := by
  unfold addUnkeyed storedFor
  cases unkeyedRow row with
  | false => rfl
  | true =>
    rw [if_pos rfl, left_set, Bool.true_and]
    by_cases hq : q = contentIdentity input row.thoiGian row.noiDung
    · rw [if_pos hq, length_append, decide_eq_true hq.symm, ← hq]
      rfl
    · rw [if_neg hq, decide_eq_false (Ne.symm hq)]
      rfl

theorem left_foldl_addUnkeyed (rows : List StoredRow) (q : List Char × List Char) :
    left (rows.foldl (addUnkeyed input) Dict.empty) q = rows.countP (storedFor input q) := by
  induction rows using List.reverseRecOn with
  | nil => rfl
  | append_singleton rows row ih =>
    rw [foldl_append, countP_append, ← ih, foldl_cons, foldl_nil, left_addUnkeyed, countP_singleton]

def plannedFor (input : MergeInput) (q : List Char × List Char) (row : PlannedRow) : Bool :=
  !importedRowId row.id && decide (contentIdentity input row.displayTime row.noiDung = q)

theorem contentIdentity_plannedRow (state : MergeState) (item : SourceItem) :
    contentIdentity input (plannedRow input kind state item).displayTime (plannedRow input kind state item).noiDung =
      itemIdentity input item := rfl

theorem plannedFor_plannedRow (q : List Char × List Char) (state : MergeState) (item : SourceItem) :
    plannedFor input q (plannedRow input kind state item) =
      (!(rowIdOf input kind item).isSome && decide (itemIdentity input item = q)) := by
  unfold plannedFor
  rw [importedRowId_plannedRow, contentIdentity_plannedRow]

/-- A merge over the stored plan of a first merge, as far as both have come: whatever the first has met, the second
has, and it has rows left for what the first will plan. -/
structure Rerun (input : MergeInput) (total : List PlannedRow) (stored : List (List Char)) (first second : MergeState) :
    Prop where
  none : second.planned = []
  seen : second.seenKeys = first.seenKeys
  ids : second.currentIds = stored
  stored : ∀ id ∈ first.currentIds, id ∈ stored
  enough : ∀ q, left first.unkeyed q + total.countP (plannedFor input q) ≤
    left second.unkeyed q + first.planned.countP (plannedFor input q)

theorem left_of_consumed {first : List Char} {rest : List (List Char)}
    (h : state.unkeyed.get? q = some (first :: rest)) : left state.unkeyed q = rest.length + 1 := by
  unfold left
  rw [h]
  rfl

theorem left_of_empty (h : (state.unkeyed.get? q).getD [] = []) : left state.unkeyed q = 0 := by
  unfold left
  rw [h]
  rfl

/-- Of an item that the first merge has met the second plans nothing. -/
theorem Rerun.step {total : List PlannedRow}
    (h : Rerun input total stored first second) (hstored : ∀ row ∈ total, row.id ∈ stored) (item : SourceItem)
    (hnext : (mergeSource input kind first item).planned <+: total) :
    Rerun input total stored (mergeSource input kind first item) (mergeSource input kind second item) := by
  have hstep := mergeSource_step input kind first item
  have hstep' := mergeSource_step input kind second item
  generalize mergeSource input kind first item = next at hstep hnext ⊢
  generalize mergeSource input kind second item = next' at hstep' ⊢
  cases hstep with
  | skipped hnot =>
    cases hstep' with
    | skipped _ => exact h
    | seen husable => exact absurd husable hnot
    | known husable => exact absurd husable hnot
    | consumed husable => exact absurd husable hnot
    | planned husable => exact absurd husable hnot
  | seen husable id hid hseen =>
    rw [← h.seen] at hseen
    cases hstep' with
    | skipped hnot => exact absurd husable hnot
    | seen _ _ _ _ => exact h
    | known _ id' hid' hfresh _ =>
      obtain rfl := Option.mem_unique hid hid'
      exact absurd hseen hfresh
    | consumed _ hunmet _ _ _ => exact absurd hseen (hunmet id hid).1
    | planned _ hunmet _ => exact absurd hseen (hunmet id hid).1
  | known husable id hid hfresh hknown =>
    have hknown' := h.stored id hknown
    rw [← h.ids] at hknown'
    cases hstep' with
    | skipped hnot => exact absurd husable hnot
    | seen _ id' hid' hseen =>
      obtain rfl := Option.mem_unique hid hid'
      rw [h.seen] at hseen
      exact absurd hseen hfresh
    | known _ id' _ _ _ => exact ⟨h.none, congrArg (· ++ _) h.seen, h.ids, h.stored, h.enough⟩
    | consumed _ hunmet _ _ _ => exact absurd hknown' (hunmet id hid).2
    | planned _ hunmet _ => exact absurd hknown' (hunmet id hid).2
  | consumed husable hunmet head rest hqueue =>
    have hleft := left_of_consumed hqueue
    cases hstep' with
    | skipped hnot => exact absurd husable hnot
    | seen _ id hid hseen =>
      rw [h.seen] at hseen
      exact absurd hseen (hunmet id hid).1
    | known _ id hid _ _ =>
      refine ⟨h.none, congrArg (· ++ _) h.seen, h.ids, h.stored, fun q => ?_⟩
      have henough := h.enough q
      show left (first.unkeyed.set _ rest) q + total.countP (plannedFor input q) ≤
        left second.unkeyed q + first.planned.countP (plannedFor input q)
      rw [left_set]
      split
      · rename_i hq
        subst hq
        omega
      · exact henough
    | consumed _ _ head' rest' hqueue' =>
      have hleft' := left_of_consumed hqueue'
      refine ⟨h.none, congrArg (· ++ _) h.seen, h.ids, h.stored, fun q => ?_⟩
      have henough := h.enough q
      show left (first.unkeyed.set _ rest) q + total.countP (plannedFor input q) ≤
        left (second.unkeyed.set _ rest') q + first.planned.countP (plannedFor input q)
      rw [left_set, left_set]
      split
      · rename_i hq
        subst hq
        omega
      · exact henough
    | planned _ _ hqueue' =>
      have hleft' := left_of_empty hqueue'
      have henough := h.enough (itemIdentity input item)
      have hsome : first.planned.countP (plannedFor input (itemIdentity input item)) ≤
          total.countP (plannedFor input (itemIdentity input item)) := hnext.sublist.countP_le
      omega
  | planned husable hunmet hqueue =>
    have hleft := left_of_empty hqueue
    have hmem : (plannedRow input kind first item).id ∈ stored :=
      hstored _ (hnext.subset (mem_append_right _ (mem_singleton_self _)))
    have hstored' : ∀ id ∈ first.currentIds ++ [(plannedRow input kind first item).id], id ∈ stored := by
      intro id hid
      rcases mem_append.mp hid with hearlier | hlast
      · exact h.stored id hearlier
      · rw [mem_singleton.mp hlast]
        exact hmem
    -- a second merge knows the id of a planned row that the source names
    have hunnamed : Unmet input kind second item → rowIdOf input kind item = Option.none := by
      intro hunmet'
      cases hid : rowIdOf input kind item with
      | none => rfl
      | some id =>
        have hrow : (plannedRow input kind first item).id = id := by
          unfold plannedRow
          rw [hid]
          rfl
        rw [hrow, ← h.ids] at hmem
        exact absurd hmem (hunmet' id hid).2
    have hcount (q : List Char × List Char) :
        (first.planned ++ [plannedRow input kind first item]).countP (plannedFor input q) =
          first.planned.countP (plannedFor input q) +
            if plannedFor input q (plannedRow input kind first item) then 1 else 0 := by
      rw [countP_append, countP_singleton]
    cases hstep' with
    | skipped hnot => exact absurd husable hnot
    | seen _ id hid hseen =>
      rw [h.seen] at hseen
      exact absurd hseen (hunmet id hid).1
    | known _ id hid _ _ =>
      refine ⟨h.none, congrArg (· ++ _) h.seen, h.ids, hstored', fun q => ?_⟩
      rw [hcount, plannedFor_plannedRow, hid]
      exact h.enough q
    | consumed _ hunmet' head rest hqueue' =>
      have hleft' := left_of_consumed hqueue'
      refine ⟨h.none, congrArg (· ++ _) h.seen, h.ids, hstored', fun q => ?_⟩
      have henough := h.enough q
      show left first.unkeyed q + total.countP (plannedFor input q) ≤
        left (second.unkeyed.set _ rest) q + (first.planned ++ [_]).countP (plannedFor input q)
      rw [hcount, plannedFor_plannedRow, hunnamed hunmet', left_set]
      by_cases hq : q = itemIdentity input item
      · subst hq
        rw [if_pos rfl, decide_eq_true rfl]
        simp only [Option.isSome_none, Bool.not_false, Bool.and_self, if_true]
        omega
      · rw [if_neg hq, decide_eq_false (Ne.symm hq), Bool.and_false, if_neg Bool.false_ne_true]
        exact henough
    | planned _ hunmet' hqueue' =>
      have hleft' := left_of_empty hqueue'
      have henough := h.enough (itemIdentity input item)
      have hsome : (first.planned ++ [plannedRow input kind first item]).countP
          (plannedFor input (itemIdentity input item)) ≤ total.countP (plannedFor input (itemIdentity input item)) :=
        hnext.sublist.countP_le
      have hone : plannedFor input (itemIdentity input item) (plannedRow input kind first item) = true := by
        rw [plannedFor_plannedRow, hunnamed hunmet', decide_eq_true rfl]
        rfl
      rw [hcount, if_pos hone] at hsome
      omega

theorem planned_prefix_foldl (items : List SourceItem) (state : MergeState) :
    state.planned <+: (items.foldl (mergeSource input kind) state).planned := by
  induction items generalizing state with
  | nil => exact prefix_rfl
  | cons item items ih =>
    have hone : state.planned <+: (mergeSource input kind state item).planned := by
      have hstep := mergeSource_step input kind state item
      generalize mergeSource input kind state item = next at hstep ⊢
      cases hstep with
      | skipped _ => exact prefix_rfl
      | seen _ _ _ _ => exact prefix_rfl
      | known _ _ _ _ _ => exact prefix_rfl
      | consumed _ _ _ _ _ => exact prefix_rfl
      | planned _ _ _ => exact prefix_append _ _
    exact hone.trans (ih _)

theorem Rerun.foldl (items : List SourceItem)
    (h : Rerun input (items.foldl (mergeSource input kind) first).planned stored first second)
    (hstored : ∀ row ∈ (items.foldl (mergeSource input kind) first).planned, row.id ∈ stored) :
    (items.foldl (mergeSource input kind) second).planned = [] := by
  induction items generalizing first second with
  | nil => exact h.none
  | cons item items ih => exact ih (h.step hstored item (planned_prefix_foldl items _)) hstored

/-! ## The stored plan -/

theorem countP_mapIdx {rows : List PlannedRow} {f : ℕ → PlannedRow → StoredRow} {p : StoredRow → Bool}
    {p' : PlannedRow → Bool} (h : ∀ i, ∀ row ∈ rows, p (f i row) = p' row) :
    (rows.mapIdx f).countP p = rows.countP p' := by
  induction rows generalizing f with
  | nil => rfl
  | cons row rows ih =>
    have hrest := @ih (fun i => f (i + 1)) fun i row hrow => h (i + 1) row (mem_cons_of_mem _ hrow)
    rw [mapIdx_cons, countP_cons, countP_cons, hrest, h 0 row mem_cons_self]

theorem map_id_mapIdx (rows : List PlannedRow) (order : ℕ → ℤ) :
    (rows.mapIdx fun i row => row.stored (order i)).map StoredRow.id = rows.map PlannedRow.id := by
  induction rows generalizing order with
  | nil => rfl
  | cons row rows ih =>
    rw [mapIdx_cons, map_cons, map_cons, ih fun i => order (i + 1)]
    rfl

theorem storedFor_stored {before : MergeState} (husable : Usable input item)
    (hrow : row = plannedRow input kind before item) (order : ℤ) (q : List Char × List Char) :
    storedFor input q (row.stored order) = plannedFor input q row := by
  obtain ⟨clock, hclock⟩ := (formatForDatetimeLocal_cases input.parseOther item.2.time).resolve_left husable.1
  have htime : (row.stored order).thoiGian = normalizeDatetimeValue input.parseOther clock.display := by
    rw [hrow, ← hclock]
    rfl
  have hdisplay : row.displayTime = clock.display := by
    rw [hrow, ← hclock]
    rfl
  have hcontent : (row.stored order).noiDung = item.2.content := by
    rw [hrow]
    rfl
  have hsame : contentIdentity input (row.stored order).thoiGian (row.stored order).noiDung =
      contentIdentity input row.displayTime row.noiDung := by
    unfold contentIdentity
    rw [htime, hdisplay, formatForDatetimeLocal_normalize, formatForDatetimeLocal_display]
    rfl
  have hunkeyed : unkeyedRow (row.stored order) = !importedRowId row.id := by
    have hid : (row.stored order).id = row.id := rfl
    have hne := normalizeDatetimeValue_ne_nil input.parseOther clock
    unfold unkeyedRow
    rw [htime, hcontent, hid, bne_iff_ne.mpr hne, bne_iff_ne.mpr husable.2, Bool.and_true, Bool.and_true]
  unfold storedFor plannedFor
  rw [hunkeyed, hsame]

theorem mergeKind_rerun (input : MergeInput) (kind : Kind) (current reread : List StoredRow)
    (versions : List (List Char × SourceRows)) (generated generated' : ℕ) (order : ℕ → ℤ)
    (h : (reread.filter fun row => row.loai = kind).Perm ((current.filter fun row => row.loai = kind) ++
      (mergeKind input kind current versions generated).planned.mapIdx fun i row => row.stored (order i))) :
    (mergeKind input kind reread versions generated').planned = [] := by
  have hplan := mergeKind_plan input kind current versions generated
  unfold mergeKind at h hplan ⊢
  generalize current.filter (fun row => row.loai = kind) = first at h hplan
  generalize reread.filter (fun row => row.loai = kind) = second at h ⊢
  generalize sourceItems versions kind = items at h hplan ⊢
  have hids : ∀ id, id ∈ second.map StoredRow.id ↔ id ∈ first.map StoredRow.id ∨
      id ∈ (items.foldl (mergeSource input kind) (mergeStart input first generated)).planned.map PlannedRow.id := by
    intro id
    rw [(h.map StoredRow.id).mem_iff, map_append, map_id_mapIdx, mem_append]
  apply @Rerun.foldl input kind (second.map StoredRow.id) (mergeStart input first generated)
    (mergeStart input second generated') items
  · refine ⟨rfl, rfl, rfl, fun id hid => (hids id).mpr (Or.inl hid), fun q => ?_⟩
    show left (first.foldl (addUnkeyed input) Dict.empty) q + _ ≤ left (second.foldl (addUnkeyed input) Dict.empty) q + 0
    rw [left_foldl_addUnkeyed, left_foldl_addUnkeyed, h.countP_eq, countP_append, Nat.add_zero]
    apply Nat.add_le_add_left
    apply Nat.le_of_eq
    refine (countP_mapIdx fun i row hrow => ?_).symm
    obtain ⟨before, item, -, husable, hspec⟩ := hplan.rows row hrow
    exact storedFor_stored husable hspec _ q
  · intro row hrow
    exact (hids row.id).mpr (Or.inr (mem_map_of_mem hrow))

theorem mergeKind_loai {versions : List (List Char × SourceRows)} {generated : ℕ}
    (h : row ∈ (mergeKind input kind current versions generated).planned) : row.loai = kind := by
  obtain ⟨before, item, -, -, rfl⟩ := (mergeKind_plan input kind current versions generated).rows row h
  rfl

theorem filter_insertedRows {plan : AppendPlan}
    (hrequests : ∀ row ∈ plan.requests, row.loai = .request) (hresponses : ∀ row ∈ plan.responses, row.loai = .response) :
    (insertedRows current plan).filter (fun row => row.loai = .request) =
        (plan.requests.mapIdx fun i row => row.stored (nextOrder current .request + i)) ∧
      (insertedRows current plan).filter (fun row => row.loai = .response) =
        (plan.responses.mapIdx fun i row => row.stored (nextOrder current .response + i)) := by
  have hof {rows : List PlannedRow} {kind : Kind} (hrows : ∀ row ∈ rows, row.loai = kind) (order : ℕ → ℤ) :
      ∀ row ∈ rows.mapIdx fun i row => row.stored (order i), row.loai = kind := by
    intro row hrow
    obtain ⟨i, hi, rfl⟩ := mem_mapIdx.mp hrow
    exact hrows _ (getElem_mem hi)
  have hall := hof hrequests fun i => nextOrder current .request + i
  have hall' := hof hresponses fun i => nextOrder current .response + i
  unfold insertedRows
  constructor
  · rw [filter_append, filter_eq_self.mpr fun row hrow => decide_eq_true (hall row hrow),
      filter_eq_nil_iff.mpr fun row hrow => by rw [hall' row hrow]; decide, append_nil]
  · rw [filter_append, filter_eq_nil_iff.mpr fun row hrow => by rw [hall row hrow]; decide,
      filter_eq_self.mpr fun row hrow => decide_eq_true (hall' row hrow), nil_append]

end Append

end Bidding.Clarifications
