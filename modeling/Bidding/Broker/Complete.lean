import Mathlib.Algebra.Order.BigOperators.Group.List
import Mathlib.Algebra.Order.Group.Nat
import Bidding.Broker.Consumer
import Bidding.Foundations.Processes

/-!
# The broker skips nothing and repeats nothing

The completed ranges of a worker are the events it is done with, less those that are deleted for good; so
what is missing from them is what it still has to see.
-/

namespace Bidding.Broker

open Foundations List

theorem covers_single {ranges : List (Span ℕ)} (h : Ranges.Separated ranges) (id : ℕ) :
    Ranges.Separated (Ranges.insert ranges id (id + 1)) ∧
      ∀ x, Ranges.Covers (Ranges.insert ranges id (id + 1)) x ↔ x = id ∨ Ranges.Covers ranges x := by
  obtain ⟨hseparated, hcovers⟩ := Ranges.insert_spec h (Nat.lt_succ_self id)
  refine ⟨hseparated, fun x => (hcovers x).trans (or_congr_left ?_)⟩
  omega

theorem covers_foldl {α : Type} (ids : List α) (key : α → ℕ) (p : α → Bool) :
    ∀ {ranges : List (Span ℕ)}, Ranges.Separated ranges →
      let merged := ids.foldl (fun ranges a => if p a then Ranges.insert ranges (key a) (key a + 1) else ranges) ranges
      Ranges.Separated merged ∧
        ∀ x, Ranges.Covers merged x ↔ (∃ a ∈ ids, p a = true ∧ key a = x) ∨ Ranges.Covers ranges x := by
  induction ids with
  | nil => exact fun h => ⟨h, fun x => by simp⟩
  | cons a ids ih =>
    intro ranges h
    rw [foldl_cons]
    by_cases hp : p a = true
    · rw [if_pos hp]
      obtain ⟨hseparated, hcovers⟩ := covers_single h (key a)
      obtain ⟨hmerged, hall⟩ := ih hseparated
      refine ⟨hmerged, fun x => (hall x).trans ?_⟩
      rw [hcovers, exists_mem_cons_iff]
      constructor
      · rintro (hlater | rfl | hbefore)
        · exact .inl (.inr hlater)
        · exact .inl (.inl ⟨hp, rfl⟩)
        · exact .inr hbefore
      · rintro ((⟨-, hkey⟩ | hlater) | hbefore)
        · exact .inr (.inl hkey.symm)
        · exact .inl hlater
        · exact .inr (.inr hbefore)
    · rw [if_neg hp]
      obtain ⟨hmerged, hall⟩ := ih h
      refine ⟨hmerged, fun x => (hall x).trans (or_congr_left ?_)⟩
      rw [exists_mem_cons_iff]
      exact (or_iff_right fun hfirst => hp hfirst.1).symm

theorem rangeAgg_spec (ids : List ℕ) : Ranges.Separated (rangeAgg ids) ∧ ∀ x, Ranges.Covers (rangeAgg ids) x ↔ x ∈ ids := by
  obtain ⟨hseparated, hcovers⟩ := covers_foldl ids id (fun _ => true) Ranges.separated_nil
  refine ⟨by simpa [rangeAgg] using hseparated, fun x => ?_⟩
  have hx := hcovers x
  simp only [Ranges.covers_nil, or_false, if_true, id, true_and, exists_eq_right] at hx
  exact hx

def Consumer.Delays (c : Consumer) (id now : ℕ) : Prop :=
  ∃ attempts availableAt, c.retries.get? id = some (attempts, availableAt) ∧ now < availableAt

theorem excludedRanges_spec {c : Consumer} (h : Ranges.Separated c.completed) (now : ℕ) :
    Ranges.Separated (c.excludedRanges now) ∧
      ∀ x, Ranges.Covers (c.excludedRanges now) x ↔ c.Delays x now ∨ Ranges.Covers c.completed x := by
  obtain ⟨hseparated, hcovers⟩ := covers_foldl c.retries.entries Prod.fst (fun entry => decide (now < entry.2.2)) h
  refine ⟨by simpa [Consumer.excludedRanges] using hseparated, fun x => ?_⟩
  have hx := hcovers x
  simp only [decide_eq_true_eq] at hx
  refine hx.trans (or_congr_left ⟨?_, ?_⟩)
  · rintro ⟨⟨id, attempts, availableAt⟩, hmem, hlt, rfl⟩
    exact ⟨attempts, availableAt, (Dict.mem_entries_iff _ _ _).mp hmem, hlt⟩
  · rintro ⟨attempts, availableAt, hget, hlt⟩
    exact ⟨(x, attempts, availableAt), (Dict.mem_entries_iff _ _ _).mpr hget, hlt, rfl⟩

theorem markDispatched_spec {c : Consumer} (h : Ranges.Separated c.completed) (id : ℕ) :
    Ranges.Separated (c.markDispatched id).completed ∧
      ∀ x, Ranges.Covers (c.markDispatched id).completed x ↔ x = id ∨ Ranges.Covers c.completed x :=
  covers_single h id

/-! ## Ids -/

variable {ι : Type} {w w' w'' : World ι} {k : Worker} {e : BrokerEvent}

def Settled (w : World ι) (id : ℕ) : Prop := id < w.nextId ∧ ∀ e ∈ w.writing, e.id ≠ id

def Gone (w : World ι) (id : ℕ) : Prop := Settled w id ∧ ∀ e ∈ w.events, e.id ≠ id

/-- The rows have ids of their own, drawn before. -/
structure Numbered (w : World ι) : Prop where
  nodup : ((w.events ++ w.writing).map BrokerEvent.id).Nodup
  drawn : ∀ e ∈ w.events ++ w.writing, 1 ≤ e.id ∧ e.id < w.nextId
  positive : 1 ≤ w.nextId
  representable : w.nextId < maxBigint

/-- What has ended stays so, and its row is not written again. -/
structure Later (w w' : World ι) : Prop where
  settled : ∀ id, Settled w id → Settled w' id
  rows : ∀ e' ∈ w'.events, Settled w e'.id → ∃ e ∈ w.events, e.id = e'.id

theorem Later.gone (h : Later w w') {id : ℕ} (hgone : Gone w id) : Gone w' id := by
  refine ⟨h.settled id hgone.1, fun e' he' heq => ?_⟩
  obtain ⟨e, he, hid⟩ := h.rows e' he' (by rw [heq]; exact hgone.1)
  exact hgone.2 e he (hid.trans heq)

theorem Later.of_same (hwriting : w'.writing = w.writing) (hnext : w'.nextId = w.nextId)
    (hevents : ∀ e' ∈ w'.events, ∃ e ∈ w.events, e.id = e'.id) : Later w w' where
  settled := fun id h => by
    rw [Settled, hwriting, hnext]
    exact h
  rows := fun e' he' _ => hevents e' he'

theorem Numbered.settled (h : Numbered w) (he : e ∈ w.events) : Settled w e.id := by
  refine ⟨(h.drawn e (mem_append_left _ he)).2, fun e' he' heq => ?_⟩
  have hnodup := h.nodup
  rw [map_append, nodup_append] at hnodup
  exact hnodup.2.2 e.id (mem_map_of_mem he) e'.id (mem_map_of_mem he') heq.symm

theorem Numbered.nodup_events (h : Numbered w) : (w.events.map BrokerEvent.id).Nodup := by
  have hnodup := h.nodup
  rw [map_append, nodup_append] at hnodup
  exact hnodup.1

theorem Numbered.of_sublist (h : Numbered w) (hnext : w'.nextId = w.nextId)
    (hsub : ((w'.events ++ w'.writing).map BrokerEvent.id).Sublist
      ((w.events ++ w.writing).map BrokerEvent.id)) : Numbered w' where
  nodup := h.nodup.sublist hsub
  drawn := fun e he => by
    obtain ⟨e', he', hid⟩ := mem_map.mp (hsub.subset (mem_map_of_mem he))
    rw [hnext, ← hid]
    exact h.drawn e' he'
  positive := by rw [hnext]; exact h.positive
  representable := by rw [hnext]; exact h.representable

theorem recorded_id (e : BrokerEvent) (error : Option String) (now : ℕ) : (e.recorded error now).id = e.id := by
  unfold BrokerEvent.recorded
  split
  · split <;> rfl
  · split <;> rfl

theorem ids_recordBrokerDispatch (events : List BrokerEvent) (id : ℕ) (error : Option String) (now : ℕ) :
    (recordBrokerDispatch events id error now).map BrokerEvent.id = events.map BrokerEvent.id := by
  rw [recordBrokerDispatch, map_map]
  refine map_congr_left fun e _ => ?_
  simp only [Function.comp_apply]
  split
  · exact recorded_id e error now
  · rfl

theorem ids_commit (h : Numbered w) (he : e ∈ w.writing) :
    ((e :: w.events ++ w.writing.filter (·.id ≠ e.id)).map BrokerEvent.id).Nodup := by
  have hnodup := h.nodup
  rw [map_append, nodup_append] at hnodup
  obtain ⟨hevents, hwriting, hapart⟩ := hnodup
  rw [cons_append, map_cons, map_append, nodup_cons, nodup_append]
  refine ⟨fun hmem => ?_, hevents, hwriting.sublist (filter_sublist.map _), fun a ha b hb => ?_⟩
  · rcases mem_append.mp hmem with hmem | hmem
    · exact hapart e.id hmem e.id (mem_map_of_mem he) rfl
    · obtain ⟨e', he', hid⟩ := mem_map.mp hmem
      exact of_decide_eq_true (mem_filter.mp he').2 hid
  · exact hapart a ha b ((filter_sublist.map _).subset hb)

section Steps

variable [DecidableEq ι]

/-- Every step keeps the rows under ids of their own. -/
theorem Step.numbered (h : Step w w') (hw : Numbered w) : Numbered w' := by
  cases h with
  | allocate content hid =>
    have hfresh : ∀ e ∈ w.events ++ w.writing, e.id ≠ w.nextId := fun e he heq => absurd (hw.drawn e he).2 (by omega)
    refine ⟨?_, fun e he => ?_, Nat.le_succ_of_le hw.positive, hid⟩
    · have hperm : (w.events ++ ⟨w.nextId, content, .pending, 0, 0, none⟩ :: w.writing).Perm
          (⟨w.nextId, content, .pending, 0, 0, none⟩ :: (w.events ++ w.writing)) := perm_middle
      rw [(hperm.map _).nodup_iff, map_cons, nodup_cons]
      refine ⟨fun hmem => ?_, hw.nodup⟩
      obtain ⟨e, he, heq⟩ := mem_map.mp hmem
      exact hfresh e he heq
    · rcases mem_append.mp he with he | he
      · have hlt := hw.drawn e (mem_append_left _ he)
        exact ⟨hlt.1, Nat.lt_succ_of_lt hlt.2⟩
      · rcases mem_cons.mp he with rfl | he
        · exact ⟨hw.positive, Nat.lt_succ_self _⟩
        · have hlt := hw.drawn e (mem_append_right _ he)
          exact ⟨hlt.1, Nat.lt_succ_of_lt hlt.2⟩
  | commit e he =>
    refine ⟨ids_commit hw he, fun e' he' => ?_, hw.positive, hw.representable⟩
    rcases mem_append.mp he' with he' | he'
    · rcases mem_cons.mp he' with rfl | he'
      · exact hw.drawn e' (mem_append_right _ he)
      · exact hw.drawn e' (mem_append_left _ he')
    · exact hw.drawn e' (mem_append_right _ (mem_filter.mp he').1)
  | rollback e he => exact hw.of_sublist rfl (((List.Sublist.refl _).append filter_sublist).map _)
  | record id error =>
    refine hw.of_sublist rfl ?_
    rw [map_append, map_append, ids_recordBrokerDispatch]
  | swept i k ids floor _ _ => exact hw.of_sublist rfl ((filter_sublist.append (List.Sublist.refl _)).map _)
  | tick | start | load | dispatched | failed | sweep | lost | prune =>
    exact ⟨hw.nodup, hw.drawn, hw.positive, hw.representable⟩

/-- No step brings back what has ended. -/
theorem Step.later (h : Step w w') : Later w w' := by
  cases h with
  | allocate content hid =>
    refine ⟨fun id hid => ⟨Nat.lt_succ_of_lt hid.1, fun e he => ?_⟩, fun e he _ => ⟨e, he, rfl⟩⟩
    rcases mem_cons.mp he with rfl | he
    · exact (ne_of_lt hid.1).symm
    · exact hid.2 e he
  | commit e he =>
    refine ⟨fun id hid => ⟨hid.1, fun e' he' => hid.2 e' (mem_filter.mp he').1⟩, fun e' he' hid => ?_⟩
    rcases mem_cons.mp he' with rfl | he'
    · exact absurd rfl (hid.2 e' he)
    · exact ⟨e', he', rfl⟩
  | rollback e he =>
    exact ⟨fun id hid => ⟨hid.1, fun e' he' => hid.2 e' (mem_filter.mp he').1⟩, fun e' he' _ => ⟨e', he', rfl⟩⟩
  | record id error =>
    refine .of_same rfl rfl fun e' he' => ?_
    have hmem : e'.id ∈ w.events.map BrokerEvent.id := by
      rw [← ids_recordBrokerDispatch w.events id error w.clock]
      exact mem_map_of_mem he'
    exact mem_map.mp hmem
  | swept i k ids floor _ _ => exact .of_same rfl rfl fun e' he' => ⟨e', (mem_filter.mp he').1, rfl⟩
  | tick | start | load | dispatched | failed | sweep | lost | prune =>
    exact .of_same rfl rfl fun e' he' => ⟨e', he', rfl⟩

end Steps

/-! ## Loading -/

variable {gap : ℕ × Option ℕ}

theorem mem_loadGap {events : List BrokerEvent} {due : List ℕ} {now : ℕ} (h : e ∈ loadGap events due now gap) :
    e ∈ events ∧ gap.1 ≤ e.id ∧ e.id < gap.2.getD maxBigint ∧ e.isReady due now = true := by
  obtain ⟨hmem, hcond⟩ := mem_filter.mp (Paging.mem_of_mem_firstRows h)
  simp only [Bool.and_eq_true, decide_eq_true_eq] at hcond
  exact ⟨hmem, hcond.1.1, hcond.1.2, hcond.2⟩

theorem inGap_of_loadGap {id : ℕ} (hfrom : gap.1 ≤ id) (hto : id < gap.2.getD maxBigint) : Ranges.InGap gap id := by
  refine ⟨hfrom, fun upper hupper => ?_⟩
  rw [hupper] at hto
  exact hto

section Load

variable {c : Consumer} {now : ℕ}

variable {events : List BrokerEvent}

theorem mem_loadBrokerEvents (hc : Ranges.Separated c.completed) (h : e ∈ loadBrokerEvents events c now) :
    e ∈ events ∧ ¬ Ranges.Covers c.completed e.id := by
  obtain ⟨gap, hgap, he⟩ := mem_flatMap.mp (Paging.mem_of_mem_firstRows h)
  obtain ⟨hmem, hfrom, hto, -⟩ := mem_loadGap he
  obtain ⟨hseparated, hcovers⟩ := excludedRanges_spec hc now
  obtain ⟨-, hfree⟩ := (Ranges.mem_gaps hseparated).mp ⟨gap, hgap, inGap_of_loadGap hfrom hto⟩
  exact ⟨hmem, fun hcovered => hfree ((hcovers e.id).mpr (.inr hcovered))⟩

theorem nodup_gaps (hnodup : (events.map BrokerEvent.id).Nodup)
    {excluded : List (Span ℕ)} (h : Ranges.Separated excluded) (due : List ℕ) :
    (((Ranges.gaps 1 excluded).flatMap (loadGap events due now)).map BrokerEvent.id).Nodup := by
  rw [map_flatMap, nodup_flatMap]
  refine ⟨fun gap _ => ?_, ?_⟩
  · exact Paging.nodup_map_firstRows (hnodup.sublist (filter_sublist.map _))
  · refine (Ranges.gaps_sorted h).2.imp fun {a b} hbetween => ?_
    obtain ⟨upper, hupper, hle⟩ := hbetween
    intro id ha hb
    obtain ⟨e, he, rfl⟩ := mem_map.mp ha
    obtain ⟨e', he', hid⟩ := mem_map.mp hb
    have hbelow : e.id < upper := by
      have hto := (mem_loadGap he).2.2.1
      rwa [hupper] at hto
    have habove : b.1 ≤ e'.id := (mem_loadGap he').2.1
    omega

theorem nodup_loadBrokerEvents (hnodup : (events.map BrokerEvent.id).Nodup)
    (hc : Ranges.Separated c.completed) : ((loadBrokerEvents events c now).map BrokerEvent.id).Nodup :=
  Paging.nodup_map_firstRows (nodup_gaps hnodup (excludedRanges_spec hc now).1 _)

end Load

/-! ## Workers -/

namespace Worker

def known (k : Worker) : List ℕ := k.finished ++ k.started

/-- What a clean-up of a worker promises for the ids it lets the worker forget: their rows are the ones
being deleted, and then they are gone. -/
def SweepSound (w : World ι) (k : Worker) : Option Sweep → Prop
  | none => True
  | some (.deleting ids floor) => k.batch = [] ∧ ∀ id ∈ forgotten floor k.known, ∀ e ∈ w.events, e.id = id → id ∈ ids
  | some (.cleaned floor) => k.batch = [] ∧ ∀ id ∈ forgotten floor k.known, Gone w id

structure Sound (w : World ι) (k : Worker) : Prop where
  separated : Ranges.Separated k.consumer.completed
  settled : ∀ id ∈ k.known, Settled w id
  coming : ∀ id ∈ k.batch, Settled w id ∧ id ∉ k.known ∧ id ∉ k.pruned
  nodup : k.batch.Nodup
  covers : ∀ id, Ranges.Covers k.consumer.completed id ↔ id ∈ k.known ∧ id ∉ k.pruned
  gone : ∀ id ∈ k.pruned, Gone w id
  sweep : SweepSound w k k.sweep

theorem mem_forgotten {floor : Option ℕ} {ids : List ℕ} {id : ℕ} (h : id ∈ forgotten floor ids) : id ∈ ids := by
  cases floor with
  | none => exact h
  | some floor => exact (mem_filter.mp h).1

theorem SweepSound.later {sweep : Option Sweep} (h : SweepSound w k sweep) (hlater : Later w w')
    (hsettled : ∀ id ∈ k.known, Settled w id) : SweepSound w' k sweep := by
  rcases sweep with _ | ⟨ids, floor⟩ | floor
  · exact trivial
  · refine ⟨h.1, fun id hid e' he' heq => ?_⟩
    obtain ⟨e, he, hsame⟩ := hlater.rows e' he' (by rw [heq]; exact hsettled id (mem_forgotten hid))
    exact h.2 id hid e he (hsame.trans heq)
  · exact ⟨h.1, fun id hid => hlater.gone (h.2 id hid)⟩

theorem Sound.later (h : Sound w k) (hlater : Later w w') : Sound w' k where
  separated := h.separated
  settled := fun id hid => hlater.settled id (h.settled id hid)
  coming := fun id hid => ⟨hlater.settled id (h.coming id hid).1, (h.coming id hid).2⟩
  nodup := h.nodup
  covers := h.covers
  gone := fun id hid => hlater.gone (h.gone id hid)
  sweep := h.sweep.later hlater h.settled

theorem mem_completedIds {events : List BrokerEvent} {id : ℕ} (h : id ∈ completedIds events) : ∃ e ∈ events, e.id = id := by
  obtain ⟨e, he, hid⟩ := mem_map.mp h
  exact ⟨e, (mem_filter.mp he).1, hid⟩

theorem sound_start (hw : Numbered w) : Sound w (start w.events) where
  separated := (rangeAgg_spec _).1
  settled := fun id hid => by
    obtain ⟨e, he, rfl⟩ := mem_completedIds hid
    exact hw.settled he
  coming := fun id hid => absurd hid not_mem_nil
  nodup := nodup_nil
  covers := fun id => ((rangeAgg_spec _).2 id).trans (iff_self_and.mpr fun _ => not_mem_nil)
  gone := fun id hid => absurd hid not_mem_nil
  sweep := trivial

theorem Sound.load (h : Sound w k) (hw : Numbered w) (hsweep : k.sweep = none) (now : ℕ) :
    Sound w { k with batch := (loadBrokerEvents w.events k.consumer now).map BrokerEvent.id } where
  separated := h.separated
  settled := h.settled
  coming := fun id hid => by
    obtain ⟨e, he, rfl⟩ := mem_map.mp hid
    obtain ⟨hmem, hfree⟩ := mem_loadBrokerEvents h.separated he
    have hpruned : e.id ∉ k.pruned := fun hin => (h.gone e.id hin).2 e hmem rfl
    exact ⟨hw.settled hmem, fun hknown => hfree ((h.covers e.id).mpr ⟨hknown, hpruned⟩), hpruned⟩
  nodup := nodup_loadBrokerEvents hw.nodup_events h.separated
  covers := h.covers
  gone := h.gone
  sweep := by
    rw [hsweep]
    trivial

section Batch

variable {id : ℕ} {rest : List ℕ}

theorem Sound.no_sweep (h : Sound w k) (hbatch : k.batch = id :: rest) : k.sweep = none := by
  have hsweep := h.sweep
  rcases hk : k.sweep with _ | ⟨ids, floor⟩ | floor
  · rfl
  all_goals
    rw [hk] at hsweep
    exact absurd (hsweep.1.symm.trans hbatch) (cons_ne_nil _ _).symm

theorem Sound.dispatch (h : Sound w k) (hbatch : k.batch = id :: rest) : Sound w (k.dispatch id rest) := by
  obtain ⟨hseparated, hcovers⟩ := markDispatched_spec h.separated id
  have hcoming := h.coming
  have hnodup := h.nodup
  rw [hbatch] at hcoming hnodup
  obtain ⟨hsettled, -, hpruned⟩ := hcoming id mem_cons_self
  obtain ⟨hfresh, hnodupRest⟩ := nodup_cons.mp hnodup
  refine ⟨hseparated, fun id' hid' => ?_, fun id' hid' => ?_, hnodupRest, fun id' => ?_, h.gone, ?_⟩
  · rcases mem_cons.mp hid' with rfl | hid'
    · exact hsettled
    · exact h.settled id' hid'
  · obtain ⟨hsettled', hunknown, hpruned'⟩ := hcoming id' (mem_cons_of_mem _ hid')
    refine ⟨hsettled', fun hknown => ?_, hpruned'⟩
    rcases mem_cons.mp hknown with rfl | hknown
    · exact hfresh hid'
    · exact hunknown hknown
  · have hmem : id' ∈ (k.dispatch id rest).known ↔ id' = id ∨ id' ∈ k.known := mem_cons
    rw [hmem]
    refine (hcovers id').trans ?_
    rw [h.covers, or_and_right]
    exact or_congr_left (iff_self_and.mpr fun heq => by rw [heq]; exact hpruned)
  · have hnone : (k.dispatch id rest).sweep = none := h.no_sweep hbatch
    rw [hnone]
    trivial

theorem Sound.fail (h : Sound w k) (hbatch : k.batch = id :: rest) (now : ℕ) : Sound w (k.fail id now rest) := by
  by_cases hlast : 5 ≤ k.consumer.failures id
  · have hdispatch : k.fail id now rest = k.dispatch id rest := by
      simp [Worker.fail, Worker.dispatch, Consumer.markFailed, hlast]
    rw [hdispatch]
    exact h.dispatch hbatch
  · have hcoming := h.coming
    have hnodup := h.nodup
    rw [hbatch] at hcoming hnodup
    have hfail : k.fail id now rest = { k with
        consumer := (k.consumer.markFailed id now).1, batch := rest } := by
      simp [Worker.fail, Consumer.markFailed, hlast]
    have hcompleted : (k.consumer.markFailed id now).1.completed = k.consumer.completed := by
      simp [Consumer.markFailed, hlast]
    rw [hfail]
    refine ⟨?_, h.settled, fun id' hid' => hcoming id' (mem_cons_of_mem _ hid'),
      (nodup_cons.mp hnodup).2, fun id' => ?_, h.gone, ?_⟩
    · simp only [hcompleted]
      exact h.separated
    · simp only [hcompleted]
      exact h.covers id'
    · simp only [h.no_sweep hbatch]
      trivial

end Batch

theorem Sound.sweepOf (h : Sound w k) (hbatch : k.batch = []) (old : BrokerEvent → Bool) :
    Sound w { k with sweep := some (sweepOf w.events old) } := by
  refine ⟨h.separated, h.settled, h.coming, h.nodup, h.covers, h.gone, hbatch, fun id hid e he heq => ?_⟩
  by_cases hold : old e = true
  · exact mem_map.mpr ⟨e, mem_filter.mpr ⟨he, hold⟩, heq⟩
  have hkept : e.id ∈ (w.events.filter fun e => !old e).map BrokerEvent.id :=
    mem_map_of_mem (mem_filter.mpr ⟨he, by simpa using hold⟩)
  cases hfloor : firstRetained (w.events.filter fun e => !old e) with
  | none =>
    rw [firstRetained, min?_eq_none_iff] at hfloor
    rw [hfloor] at hkept
    exact absurd hkept not_mem_nil
  | some floor =>
    have hlow : floor ≤ e.id := ((min?_eq_some_iff).mp hfloor).2 e.id hkept
    rw [hfloor] at hid
    have hlt : id < floor := of_decide_eq_true (mem_filter.mp hid).2
    omega

variable {floor : Option ℕ}

theorem Sound.swept (h : Sound w k) {ids : List ℕ} (hsweep : k.sweep = some (.deleting ids floor)) :
    Sound (w.delete ids) { k with sweep := some (.cleaned floor) } := by
  have hpromise := h.sweep
  rw [hsweep] at hpromise
  have hdeleted : Later w (w.delete ids) :=
    .of_same rfl rfl fun e' he' => ⟨e', (mem_filter.mp he').1, rfl⟩
  have hk := h.later hdeleted
  refine ⟨hk.separated, hk.settled, hk.coming, hk.nodup, hk.covers, hk.gone, hpromise.1, fun id hid => ?_⟩
  refine ⟨hk.settled id (mem_forgotten hid), fun e he heq => ?_⟩
  obtain ⟨hmem, hkept⟩ := mem_filter.mp he
  refine of_decide_eq_true hkept ?_
  rw [heq]
  exact hpromise.2 id hid e hmem heq

theorem Sound.prune (h : Sound w k) (hsweep : k.sweep = some (.cleaned floor)) : Sound w (k.prune floor) := by
  have hpromise := h.sweep
  rw [hsweep] at hpromise
  obtain ⟨hbatch, hgone⟩ := hpromise
  have hempty : ∀ id, id ∉ (k.prune floor).batch := fun id hid => by
    have hin : id ∈ k.batch := hid
    rw [hbatch] at hin
    exact not_mem_nil hin
  refine ⟨?_, h.settled, fun id hid => absurd hid (hempty id), h.nodup, fun id => ?_, fun id hid => ?_, trivial⟩
  · cases floor with
    | none => exact Ranges.separated_nil
    | some floor => exact (Ranges.dropBelow_spec h.separated floor).1
  · have hpruned : id ∈ (k.prune floor).pruned ↔ id ∈ k.pruned ∨ id ∈ forgotten floor k.known :=
      mem_append
    have hknown : (k.prune floor).known = k.known := rfl
    rw [hpruned, hknown, not_or]
    cases floor with
    | none => exact iff_of_false Ranges.covers_nil fun hid => hid.2.2 hid.1
    | some floor =>
      refine ((Ranges.dropBelow_spec h.separated floor).2 id).trans ?_
      rw [h.covers, forgotten, mem_filter, decide_eq_true_eq]
      constructor
      · rintro ⟨hfloor, hin, hkept⟩
        exact ⟨hin, hkept, fun hlow => absurd hlow.2 (not_lt.mpr hfloor)⟩
      · rintro ⟨hin, hkept, hhigh⟩
        exact ⟨not_lt.mp fun hlow => hhigh ⟨hin, hlow⟩, hin, hkept⟩
  · rcases mem_append.mp hid with hid | hid
    · exact h.gone id hid
    · exact hgone id hid

theorem Sound.lost (h : Sound w k) : Sound w { k with sweep := none } :=
  ⟨h.separated, h.settled, h.coming, h.nodup, h.covers, h.gone, trivial⟩

end Worker

variable [DecidableEq ι]

structure Sound (w : World ι) : Prop where
  numbered : Numbered w
  workers : ∀ i k, w.workers i = some k → k.Sound w

theorem sound_setWorker {v : World ι} (hworkers : ∀ i k, v.workers i = some k → k.Sound v)
    {i : ι} (hk : k.Sound v) : ∀ j k', (v.setWorker i k).workers j = some k' → k'.Sound (v.setWorker i k) := by
  have hsame : Later v (v.setWorker i k) := .of_same rfl rfl fun e he => ⟨e, he, rfl⟩
  intro j k' hj
  by_cases hji : j = i
  · have hset : (v.setWorker i k).workers j = some k := by
      rw [hji]
      exact Function.update_self i (some k) v.workers
    rw [← Option.mem_unique hset hj]
    exact hk.later hsame
  · have hkeep : (v.setWorker i k).workers j = v.workers j := by
      unfold World.setWorker
      exact Function.update_of_ne hji _ _
    exact (hworkers j k' (hkeep.symm.trans hj)).later hsame

/-- A step keeps the completed ranges of every worker exact. -/
theorem Sound.step (h : Sound w) (hstep : Step w w') : Sound w' := by
  refine ⟨hstep.numbered h.numbered, ?_⟩
  have hlater := hstep.later
  cases hstep with
  | allocate | commit | rollback | tick | record => exact fun i k hk => (h.workers i k hk).later hlater
  | start i => exact sound_setWorker h.workers (Worker.sound_start h.numbered)
  | load i k hk hbatch hsweep => exact sound_setWorker h.workers ((h.workers i k hk).load h.numbered hsweep w.clock)
  | dispatched i k id rest hk hbatch => exact sound_setWorker h.workers ((h.workers i k hk).dispatch hbatch)
  | failed i k id rest hk hbatch => exact sound_setWorker h.workers ((h.workers i k hk).fail hbatch w.clock)
  | sweep i k old hk hbatch => exact sound_setWorker h.workers ((h.workers i k hk).sweepOf hbatch old)
  | swept i k ids floor hk hsweep =>
    have hdeleted : Later w (w.delete ids) :=
      .of_same rfl rfl fun e' he' => ⟨e', (mem_filter.mp he').1, rfl⟩
    have hothers : ∀ j k', (w.delete ids).workers j = some k' → k'.Sound (w.delete ids) :=
      fun j k' hj => (h.workers j k' hj).later hdeleted
    exact sound_setWorker hothers ((h.workers i k hk).swept hsweep)
  | lost i k hk => exact sound_setWorker h.workers (h.workers i k hk).lost
  | prune i k floor hk hsweep => exact sound_setWorker h.workers ((h.workers i k hk).prune hsweep)

theorem Run.sound {start : World ι} (hrun : Run start w) (hnumbered : Numbered start)
    (hnone : ∀ i, start.workers i = none) : Sound w := by
  induction hrun with
  | start =>
    refine ⟨hnumbered, fun i k hk => ?_⟩
    rw [hnone i] at hk
    exact absurd hk (Option.some_ne_none k).symm
  | step _ hstep ih => exact ih.step hstep

theorem known_setWorker {i : ι} (h : ∀ i k, w.workers i = some k → k.known.Nodup) (hsame : w'.workers = w.workers)
    (hk : k.known.Nodup) : ∀ j k', (w'.setWorker i k).workers j = some k' → k'.known.Nodup := by
  intro j k' hj
  change Function.update w'.workers i (some k) j = some k' at hj
  by_cases hji : j = i
  · rw [hji, Function.update_self] at hj
    rwa [← Option.some.inj hj]
  · rw [Function.update_of_ne hji, hsame] at hj
    exact h j k' hj

theorem Step.known_nodup (hstep : Step w w') (hsound : Sound w) (h : ∀ i k, w.workers i = some k → k.known.Nodup) :
    ∀ i k, w'.workers i = some k → k.known.Nodup := by
  have hdone {i : ι} {k : Worker} {id : ℕ} {rest : List ℕ} (hk : w.workers i = some k) (hbatch : k.batch = id :: rest) :
      (id :: k.known).Nodup :=
    nodup_cons.mpr ⟨((hsound.workers i k hk).coming id (hbatch ▸ mem_cons_self)).2.1, h i k hk⟩
  cases hstep with
  | allocate | commit | rollback | tick | record => exact h
  | start i => exact known_setWorker h rfl (hsound.numbered.nodup_events.sublist (filter_sublist.map _))
  | load i k hk | sweep i k old hk | lost i k hk | prune i k floor hk => exact known_setWorker h rfl (h i k hk)
  | swept i k ids floor hk => exact known_setWorker h rfl (h i k hk)
  | dispatched i k id rest hk hbatch => exact known_setWorker h rfl (hdone hk hbatch)
  | failed i k id rest hk hbatch =>
    refine known_setWorker h rfl ?_
    unfold Worker.fail Worker.known
    dsimp only
    split
    · exact hdone hk hbatch
    · exact h i k hk

/-- In every run a worker is done with an event at most once, and the ranges it keeps depend on what it is done with, in
whatever order that was. -/
theorem done_once {start : World ι} (hnumbered : Numbered start) (hnone : ∀ i, start.workers i = none) (hrun : Run start w) :
    (∀ i k, w.workers i = some k → (k.finished ++ k.started).Nodup) ∧
      ∀ i k j k', w.workers i = some k → w.workers j = some k' →
        (∀ id, id ∈ k.finished ++ k.started ∧ id ∉ k.pruned ↔ id ∈ k'.finished ++ k'.started ∧ id ∉ k'.pruned) →
        k.consumer.completed = k'.consumer.completed := by
  constructor
  · induction hrun with
    | start =>
      intro i k hk
      rw [hnone i] at hk
      cases hk
    | step hrun hstep ih => exact hstep.known_nodup (hrun.sound hnumbered hnone) ih
  · intro i k j k' hk hk' hsame
    have hsound := hrun.sound hnumbered hnone
    have hleft := hsound.workers i k hk
    have hright := hsound.workers j k' hk'
    exact hleft.separated.ext hright.separated fun id => (hleft.covers id).trans ((hsame id).trans (hright.covers id).symm)

/-- Two workers are done with two events, the first of them in the order in which they were committed. -/
theorem done_once_apart : ∃ (w : World Bool) (k k' : Worker), Run ⟨[], [], 1, 100, fun _ => none⟩ w ∧
    w.workers true = some k ∧ w.workers false = some k' ∧ k.finished = [1, 2] ∧ k'.finished = [2, 1] ∧
    (k.finished ++ k.started).Nodup ∧ k.consumer.completed = k'.consumer.completed := by
  let content : EventContent := ⟨"broadcast", some "organization", none, none⟩
  let start : World Bool := ⟨[], [], 1, 100, fun _ => none⟩
  have hnumbered : Numbered start := ⟨nodup_nil, by simp [start], le_refl 1, by decide⟩
  have hworkers := Run.step (.step (.start : Run start start) (.start true)) (.start false)
  have hcontents := Run.step (.step hworkers (.allocate content (by decide))) (.allocate content (by decide))
  have hlate := Run.step hcontents (.commit ⟨2, content, .pending, 0, 0, none⟩ mem_cons_self)
  have htwo := Run.step (.step hlate (.load true (.start []) rfl rfl rfl)) (.dispatched true _ 2 [] rfl rfl)
  have hearly := Run.step htwo (.commit ⟨1, content, .pending, 0, 0, none⟩ mem_cons_self)
  have hone := Run.step (.step hearly (.load true _ rfl rfl rfl)) (.dispatched true _ 1 [] rfl rfl)
  have hboth := Run.step (.step hone (.load false (.start []) rfl rfl rfl)) (.dispatched false _ 1 [2] rfl rfl)
  have hdone := Run.step hboth (.dispatched false _ 2 [] rfl rfl)
  have honce := done_once hnumbered (fun _ => rfl) hdone
  have hsame := honce.2 true _ false _ rfl rfl fun id => and_congr_left' (Perm.swap 2 1 []).mem_iff
  exact ⟨_, _, _, hdone, rfl, rfl, rfl, rfl, honce.1 true _ rfl, hsame⟩

end Bidding.Broker
