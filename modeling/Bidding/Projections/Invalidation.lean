import Bidding.Projections.Isolation

/-!
# Invalidated pages

Invalidating leaves the loads in flight alone, so a page comes back if a load of it was in flight. The marker by which the
pages of a table are found also finds those of other tables where the name of the table is a text of the scope.
-/

namespace Bidding.Projections

open Foundations List
open Option hiding mem_map_of_mem

variable {V : Type} {options : StoreOptions} {s : ProjectionState V} {table : String} {queryText : Option String} {lease : Lease} {f : Load V → Load V}

def Names (model : ClientModel) (table : String) (queryText : Option String) (lease : Lease) (key : ProjectionKey) : Prop :=
  match queryText with
  | some text => key = normalizedProjectionKey model table text (projectionLease model lease)
  | none => ∃ text captured, key = normalizedProjectionKey model table text captured

/-- An answer is nothing that a load of before the given number brings. -/
def AnswersFresh (number : ℕ) (answer : Answer V) : Prop :=
  match answer with
  | .thrown => True
  | .cached entry => ∃ load, entry.origin.load = some load ∧ number ≤ load
  | .promised load => number ≤ load

/-- After an invalidation and some later events no value of a load that was started before the invalidation is cached for a page
it names, or answered to a query or a revalidation of such a page; and the invalidation kept the pages of other tables. -/
structure StaysInvalid (options : StoreOptions) (s : ProjectionState V) (table : String) (queryText : Option String)
    (lease : Lease) (later : List (Event V)) : Prop where
  cached : ∀ key entry, Names s.model table queryText lease key →
    (run options (invalidate s table queryText lease) later).cache.get? key = some entry →
      ∃ load, entry.origin.load = some load ∧ s.loads.length ≤ load
  queried : ∀ table' text lease' prefetch now,
    Names s.model table queryText lease (normalizedProjectionKey s.model table' text (projectionLease s.model lease')) →
      AnswersFresh s.loads.length
        (query options (run options (invalidate s table queryText lease) later) table' text lease' prefetch now).1
  revalidated : ∀ table' text lease' prefetch now,
    Names s.model table queryText lease (normalizedProjectionKey s.model table' text (projectionLease s.model lease')) →
      AnswersFresh s.loads.length
        (revalidate options (run options (invalidate s table queryText lease) later) table' text lease' prefetch now).1
  others : ∀ other text captured, other ≠ table →
    (invalidate s table queryText lease).cache.get? (normalizedProjectionKey s.model other text captured) =
      s.cache.get? (normalizedProjectionKey s.model other text captured)

/-- No load of the pages an invalidation names is in flight, unless it was aborted; and where it names a whole table, no page of
another table is cached under a scope that has the name of the table as one of its texts. -/
structure CleanInvalidation (s : ProjectionState V) (table : String) (queryText : Option String) (lease : Lease) : Prop where
  quiet : ∀ (key : ProjectionKey) (number : ℕ) (load : Load V), Names s.model table queryText lease key →
    s.flights.get? key = some number → s.loads[number]? = some load → load.aborted = true
  apart : queryText = none → ∀ other text captured, other ≠ table →
    s.cache.get? (normalizedProjectionKey s.model other text captured) ≠ none → table ∉ scopeTexts s.model captured

def Event.isLoading : Event V → Bool
  | .change _ | .setValue _ _ _ _ _ _ => false
  | _ => true

theorem tableMarker_infix_iff (model : ClientModel) (table other text : String) (captured : CapturedLease) :
    tableMarker table <:+: normalizedProjectionKey model other text captured ↔
      table ∈ scopeTexts model captured ∨ table = other := by
  have hkey : normalizedProjectionKey model other text captured =
      joinParts ':' ("v1".toList :: ((scopeTexts model captured ++ [other]).map encodeURIComponent ++ [encodeURIComponent text])) := rfl
  rw [hkey, tableMarker, infix_joinParts_iff (colon_not_mem_encodeURIComponent table) (by decide), dropLast_concat]
  · constructor
    · intro hmem
      obtain ⟨found, hfound, heq⟩ := mem_map.mp hmem
      rw [encodeURIComponent_inj heq, mem_append, mem_singleton] at hfound
      exact hfound
    · intro hmem
      apply mem_map_of_mem
      rw [mem_append, mem_singleton]
      exact hmem
  · intro part hpart
    rcases mem_append.mp hpart with hscope | hlast
    · obtain ⟨found, -, rfl⟩ := mem_map.mp hscope
      exact colon_not_mem_encodeURIComponent found
    · rw [mem_singleton.mp hlast]
      exact colon_not_mem_encodeURIComponent text

theorem get?_invalidate_of_names (htable : table ≠ "")
    {key : ProjectionKey} (h : Names s.model table queryText lease key) : (invalidate s table queryText lease).cache.get? key = none := by
  unfold invalidate
  rw [if_neg htable]
  cases queryText with
  | some text =>
    dsimp only
    rw [h, Dict.get?_erase_self]
  | none =>
    obtain ⟨text, captured, rfl⟩ := h
    dsimp only
    have hmarker := (tableMarker_infix_iff s.model table table text captured).mpr (.inr rfl)
    generalize normalizedProjectionKey s.model table text captured = key at hmarker ⊢
    rw [Dict.get?_filterKeys, if_neg]
    rw [decide_eq_true_iff, not_not]
    exact hmarker

theorem CleanInvalidation.others
    (h : CleanInvalidation s table queryText lease) (htable : table ≠ "") {other : String} (hother : other ≠ table) (text : String)
    (captured : CapturedLease) : (invalidate s table queryText lease).cache.get? (normalizedProjectionKey s.model other text captured) =
      s.cache.get? (normalizedProjectionKey s.model other text captured) := by
  have hmarker := tableMarker_infix_iff s.model table other text captured
  have hapart := fun hnone => h.apart hnone other text captured hother
  have hkeys : ∀ text' captured', normalizedProjectionKey s.model other text captured ≠
      normalizedProjectionKey s.model table text' captured' := by
    intro text' captured' hkey
    rw [normalizedProjectionKey_eq, normalizedProjectionKey_eq] at hkey
    have htexts := Request.key_inj hkey
    simp only [Request.texts, requestOf, pageOf, List.cons.injEq] at htexts
    exact hother htexts.2.2.2.2.2.1
  generalize normalizedProjectionKey s.model other text captured = key at hmarker hapart hkeys ⊢
  unfold invalidate
  rw [if_neg htable]
  cases queryText with
  | some text' =>
    dsimp only
    exact Dict.get?_erase_of_ne s.cache (hkeys text' _)
  | none =>
    dsimp only
    rw [Dict.get?_filterKeys]
    by_cases hcached : s.cache.get? key = none
    · rw [hcached, ite_self]
    · rw [if_pos]
      rw [decide_eq_true_iff, hmarker, not_or]
      exact ⟨hapart rfl hcached, fun heq => hother heq.symm⟩

/-! ## What the operations keep -/

/-- Flights are of loads with their keys, keys are as they would be made now, and a load that has not ended is in flight or was
aborted. -/
structure Orderly (s : ProjectionState V) : Prop where
  flights : ∀ key number, s.flights.get? key = some number → ∃ load, s.loads[number]? = some load ∧ load.key = key
  keys : ∀ (number : ℕ) (load : Load V), s.loads[number]? = some load →
    load.key = normalizedProjectionKey s.model load.table load.query load.lease
  pending : ∀ (number : ℕ) (load : Load V), s.loads[number]? = some load → load.outcome = none →
    load.aborted = true ∨ s.flights.get? load.key = some number

/-- Of the named pages nothing is cached or in flight that was started before the given number of loads. -/
structure Cleared (names : ProjectionKey → Prop) (number : ℕ) (s : ProjectionState V) : Prop where
  cache : ∀ key entry, names key → s.cache.get? key = some entry → ∃ load, entry.origin.load = some load ∧ number ≤ load
  flights : ∀ (key : ProjectionKey) (n : ℕ) (load : Load V), names key → s.flights.get? key = some n → s.loads[n]? = some load →
    load.aborted = true ∨ number ≤ n
  pending : ∀ (n : ℕ) (load : Load V), s.loads[n]? = some load → names load.key → load.outcome = none →
    load.aborted = true ∨ number ≤ n
  count : number ≤ s.loads.length

def Onward (loads loads' : List (Load V)) : Prop :=
  ∀ (n : ℕ) (load' : Load V), loads'[n]? = some load' → ∃ load, loads[n]? = some load ∧ load.started = load'.started ∧
    (load.aborted = true → load'.aborted = true) ∧ (load'.outcome = none → load.outcome = none)

theorem onward_refl (loads : List (Load V)) : Onward loads loads := fun _ load hload => ⟨load, hload, rfl, id, id⟩

theorem Onward.trans {loads loads' loads'' : List (Load V)} (h : Onward loads loads') (h' : Onward loads' loads'') :
    Onward loads loads'' := by
  intro n load'' hload''
  obtain ⟨load', hload', hstarted', habort', hpending'⟩ := h' n load'' hload''
  obtain ⟨load, hload, hstarted, habort, hpending⟩ := h n load' hload'
  exact ⟨load, hload, hstarted.trans hstarted', habort' ∘ habort, hpending ∘ hpending'⟩

theorem onward_modify (loads : List (Load V)) (number : ℕ) (hstarted : ∀ load, (f load).started = load.started)
    (habort : ∀ load, load.aborted = true → (f load).aborted = true)
    (hpending : ∀ load, (f load).outcome = none → load.outcome = none) : Onward loads (loads.modify number f) := by
  intro n load' hload'
  rw [getElem?_modify] at hload'
  cases hload : loads[n]? with
  | none =>
    rw [hload] at hload'
    cases hload'
  | some load =>
    rw [hload] at hload'
    have heq : (if number = n then f load else load) = load' := some.inj hload'
    by_cases hn : number = n
    · rw [if_pos hn] at heq
      rw [← heq]
      exact ⟨load, rfl, (hstarted load).symm, habort load, hpending load⟩
    · rw [if_neg hn] at heq
      rw [← heq]
      exact ⟨load, rfl, rfl, id, id⟩

theorem onward_foldl_abort (numbers : List ℕ) (s : ProjectionState V) : Onward s.loads (numbers.foldl abort s).loads := by
  induction numbers generalizing s with
  | nil => exact onward_refl s.loads
  | cons number numbers ih =>
    have hfirst : Onward s.loads (abort s number).loads :=
      onward_modify s.loads number (f := fun load => { load with aborted := true }) (fun _ => rfl) (fun _ _ => rfl) (fun _ h => h)
    exact hfirst.trans (ih (abort s number))

variable {names : ProjectionKey → Prop}

variable {number : ℕ} {flights : Dict ProjectionKey ℕ}

theorem Cleared.mono (h : Cleared names number s) {s' : ProjectionState V}
    (hcache : ∀ key entry, s'.cache.get? key = some entry → s.cache.get? key = some entry ∨
      (names key → ∃ load, entry.origin.load = some load ∧ number ≤ load))
    (hflights : ∀ key n, s'.flights.get? key = some n → s.flights.get? key = some n)
    (hloads : Onward s.loads s'.loads) (hlength : s'.loads.length = s.loads.length) : Cleared names number s' where
  cache key entry hnames hentry := by
    rcases hcache key entry hentry with hold | hnew
    · exact h.cache key entry hnames hold
    · exact hnew hnames
  flights key n load' hnames hn hload' := by
    obtain ⟨load, hload, -, habort, -⟩ := hloads n load' hload'
    exact (h.flights key n load hnames (hflights key n hn) hload).imp_left habort
  pending n load' hload' hnames hpending' := by
    obtain ⟨load, hload, hstarted, habort, hpending⟩ := hloads n load' hload'
    rw [← (eq_of_started hstarted).1] at hnames
    exact (h.pending n load hload hnames (hpending hpending')).imp_left habort
  count := by
    rw [hlength]
    exact h.count

theorem Orderly.mono (h : Orderly s) {s' : ProjectionState V} (hmodel : s'.model = s.model)
    (hflights : ∀ key n, s'.flights.get? key = some n → s.flights.get? key = some n)
    (hloads : Onward s.loads s'.loads) (hlength : s'.loads.length = s.loads.length)
    (hkept : ∀ (n : ℕ) (load : Load V), s'.loads[n]? = some load → load.outcome = none → s.flights.get? load.key = some n →
      load.aborted = true ∨ s'.flights.get? load.key = some n) : Orderly s' where
  flights key n hn := by
    obtain ⟨load, hload, hkey⟩ := h.flights key n (hflights key n hn)
    have hbound : n < s'.loads.length := by
      rw [hlength]
      exact (List.getElem?_eq_some_iff.mp hload).1
    refine ⟨s'.loads[n], getElem?_eq_getElem hbound, ?_⟩
    obtain ⟨load', hload', hstarted, -⟩ := hloads n s'.loads[n] (getElem?_eq_getElem hbound)
    rw [hload, some.injEq] at hload'
    rw [← (eq_of_started hstarted).1, ← hload', hkey]
  keys n load' hload' := by
    obtain ⟨load, hload, hstarted, -⟩ := hloads n load' hload'
    obtain ⟨hkey, hpage, hlease⟩ := eq_of_started hstarted
    have htable : load.table = load'.table := congrArg Page.table hpage
    have hquery : load.query = load'.query := congrArg Page.query hpage
    rw [← hkey, ← htable, ← hquery, ← hlease, hmodel]
    exact h.keys n load hload
  pending n load' hload' hpending' := by
    obtain ⟨load, hload, hstarted, habort, hpending⟩ := hloads n load' hload'
    rcases h.pending n load hload (hpending hpending') with haborted | hflight
    · exact .inl (habort haborted)
    · rw [(eq_of_started hstarted).1] at hflight
      exact hkept n load' hload' hpending' hflight

theorem Orderly.startLoad (h : Orderly s) {queryText : String} {lease : CapturedLease}
    (hall : ∀ (number : ℕ) (load : Load V), s.flights.get? (normalizedProjectionKey s.model table queryText lease) = some number →
      s.loads[number]? = some load → load.aborted = true)
    (hsub : ∀ key number, flights.get? key = some number → s.flights.get? key = some number)
    (hothers : ∀ key, key ≠ normalizedProjectionKey s.model table queryText lease → flights.get? key = s.flights.get? key)
    (prefetch : Bool) : Orderly (Projections.startLoad { s with flights := flights } table queryText lease prefetch).2 where
  flights key n hn := by
    unfold Projections.startLoad at hn ⊢
    dsimp only at hn ⊢
    rw [Dict.get?_set] at hn
    split at hn
    · rename_i hkey
      rw [← some.inj hn, getElem?_concat_length]
      exact ⟨_, rfl, hkey.symm⟩
    · obtain ⟨load, hload, hkey⟩ := h.flights key n (hsub key n hn)
      exact ⟨load, getElem?_append_left (List.getElem?_eq_some_iff.mp hload).1 ▸ hload, hkey⟩
  keys n load hload := by
    unfold Projections.startLoad at hload ⊢
    dsimp only at hload ⊢
    rw [getElem?_append] at hload
    split at hload
    · exact h.keys n load hload
    rw [getElem?_singleton] at hload
    split at hload
    · rw [← some.inj hload]
    · cases hload
  pending n load hload hpending := by
    unfold Projections.startLoad at hload ⊢
    dsimp only at hload ⊢
    rw [getElem?_append] at hload
    rw [Dict.get?_set]
    split at hload
    · rcases h.pending n load hload hpending with haborted | hflight
      · exact .inl haborted
      by_cases hkey : load.key = normalizedProjectionKey s.model table queryText lease
      · rw [hkey] at hflight
        exact .inl (hall n load hflight hload)
      · rw [if_neg hkey, hothers load.key hkey]
        exact .inr hflight
    · rename_i hbound
      rw [getElem?_singleton] at hload
      split at hload
      · rename_i hzero
        rw [← some.inj hload, if_pos rfl]
        refine .inr (congrArg some ?_)
        omega
      · cases hload

theorem Cleared.startLoad (h : Cleared names number s)
    (hsub : ∀ key n, flights.get? key = some n → s.flights.get? key = some n) (table queryText : String) (lease : CapturedLease)
    (prefetch : Bool) : Cleared names number (Projections.startLoad { s with flights := flights } table queryText lease prefetch).2 where
  cache := h.cache
  flights key n load hnames hn hload := by
    unfold Projections.startLoad at hn hload
    dsimp only at hn hload
    rw [Dict.get?_set] at hn
    split at hn
    · have hcount := h.count
      rw [some.injEq] at hn
      omega
    · rw [getElem?_append] at hload
      split at hload
      · exact h.flights key n load hnames (hsub key n hn) hload
      · have hcount := h.count
        omega
  pending n load hload hnames hpending := by
    unfold Projections.startLoad at hload
    dsimp only at hload
    rw [getElem?_append] at hload
    split at hload
    · exact h.pending n load hload hnames hpending
    · have hcount := h.count
      omega
  count := by
    unfold Projections.startLoad
    dsimp only
    rw [length_append]
    exact Nat.le_add_right_of_le h.count

/-- One state follows from another by an operation that enters no value and starts no load. -/
structure Keeps (s s' : ProjectionState V) : Prop where
  model : s'.model = s.model
  cache : ∀ key entry, s'.cache.get? key = some entry → s.cache.get? key = some entry
  flights : ∀ key n, s'.flights.get? key = some n → s.flights.get? key = some n
  loads : Onward s.loads s'.loads
  length : s'.loads.length = s.loads.length
  kept : ∀ (n : ℕ) (load : Load V), s'.loads[n]? = some load → load.outcome = none → s.flights.get? load.key = some n →
    load.aborted = true ∨ s'.flights.get? load.key = some n

variable {s' : ProjectionState V} {events : List (Event V)}

/-- The flights are of loads under their keys, and what an invalidation has cleared is clear. -/
structure Tracked (names : ProjectionKey → Prop) (number : ℕ) (s : ProjectionState V) : Prop where
  orderly : Orderly s
  cleared : Cleared names number s

theorem Keeps.tracked (h : Keeps s s') (htracked : Tracked names number s) : Tracked names number s' where
  orderly := htracked.orderly.mono h.model h.flights h.loads h.length h.kept
  cleared := htracked.cleared.mono (fun key entry hentry => .inl (h.cache key entry hentry)) h.flights h.loads h.length

theorem keeps_of_eq (hmodel : s'.model = s.model) (hflights : s'.flights = s.flights)
    (hloads : s'.loads = s.loads) (hcache : ∀ key entry, s'.cache.get? key = some entry → s.cache.get? key = some entry) :
    Keeps s s' where
  model := hmodel
  cache := hcache
  flights key n hn := by
    rw [← hflights]
    exact hn
  loads := by
    rw [hloads]
    exact onward_refl s.loads
  length := by rw [hloads]
  kept n load _ _ hflight := by
    rw [hflights]
    exact .inr hflight

theorem keeps_read (s : ProjectionState V) (table queryText : String) (lease : Lease) (now : ℤ) :
    Keeps s (read options s table queryText lease now).2 := by
  obtain ⟨hmodel, hflights, hloads, hcache⟩ := read_state options s table queryText lease now
  refine keeps_of_eq hmodel hflights hloads fun key entry hentry => ?_
  rw [← hcache]
  exact hentry

theorem keeps_invalidate (s : ProjectionState V) (table : String) (queryText : Option String) (lease : Lease) :
    Keeps s (invalidate s table queryText lease) := by
  obtain ⟨hmodel, hflights, hloads⟩ := invalidate_state s table queryText lease
  exact keeps_of_eq hmodel hflights hloads fun _ _ => get?_of_invalidate

theorem keeps_modify (s : ProjectionState V) (number : ℕ)
    (hstarted : ∀ load, (f load).started = load.started) (habort : ∀ load, load.aborted = true → (f load).aborted = true)
    (hpending : ∀ load, (f load).outcome = none → load.outcome = none) :
    Keeps s { s with loads := s.loads.modify number f } where
  model := rfl
  cache _ _ hentry := hentry
  flights _ _ hn := hn
  loads := onward_modify s.loads number hstarted habort hpending
  length := length_modify ..
  kept _ _ _ _ hflight := .inr hflight

theorem keeps_settleLoad (s : ProjectionState V) (number : ℕ) (outcome : Option V) : Keeps s (settleLoad s number outcome) :=
  keeps_modify s number (f := fun load => { load with outcome := some outcome }) (fun _ => rfl) (fun _ h => h)
    (fun _ h => by cases h)

theorem keeps_abort (s : ProjectionState V) (number : ℕ) : Keeps s (abort s number) :=
  keeps_modify s number (f := fun load => { load with aborted := true }) (fun _ => rfl) (fun _ _ => rfl) (fun _ h => h)

theorem keeps_finish (s : ProjectionState V) (number : ℕ) : Keeps s (finish s number) := by
  have hrefl : Keeps s s := keeps_of_eq rfl rfl rfl fun _ _ h => h
  unfold finish
  split
  · exact hrefl
  rename_i ended hended
  split
  · rename_i hdone
    refine ⟨rfl, fun _ _ h => h, fun key n hn => ?_, onward_refl s.loads, rfl, fun n load hload hpending hflight => ?_⟩
    · rw [Dict.get?_erase] at hn
      split at hn
      · cases hn
      · exact hn
    · rw [Dict.get?_erase]
      split
      · -- the load of this key that is in flight has ended
        rename_i hkey
        rw [hkey, hdone.2, some.injEq] at hflight
        rw [← hflight, hended, some.injEq] at hload
        rw [← hload] at hpending
        rw [hpending] at hdone
        exact absurd hdone.1 Bool.false_ne_true
      · exact .inr hflight
  · exact hrefl

theorem aborted_foldl_abort {numbers : List ℕ} {n : ℕ} (hn : n ∈ numbers) (s : ProjectionState V) {load : Load V}
    (hload : (numbers.foldl abort s).loads[n]? = some load) : load.aborted = true := by
  induction numbers generalizing s with
  | nil => cases hn
  | cons number numbers ih =>
    rw [foldl_cons] at hload
    by_cases hlater : n ∈ numbers
    · exact ih hlater (abort s number) hload
    have hfirst : n = number := (mem_cons.mp hn).resolve_right hlater
    obtain ⟨load', hload', -, habort, -⟩ := onward_foldl_abort numbers (abort s number) n load hload
    apply habort
    unfold abort at hload'
    dsimp only at hload'
    rw [hfirst, getElem?_modify] at hload'
    obtain ⟨old, -, heq⟩ := map_eq_some_iff.mp hload'
    rw [if_pos rfl] at heq
    rw [← heq]

theorem length_foldl_abort (numbers : List ℕ) (s : ProjectionState V) : (numbers.foldl abort s).loads.length = s.loads.length := by
  induction numbers generalizing s with
  | nil => rfl
  | cons number numbers ih =>
    rw [foldl_cons, ih]
    exact length_modify ..

theorem keeps_disposeWorkspace (s : ProjectionState V) : Keeps s (disposeWorkspace s) where
  model := model_foldl_abort s.flights.values s
  cache _ _ hentry := by cases hentry
  flights _ _ hn := by cases hn
  loads := onward_foldl_abort s.flights.values s
  length := length_foldl_abort s.flights.values s
  kept n load hload _ hflight :=
    .inl (aborted_foldl_abort ((Dict.mem_values_iff s.flights n).mpr ⟨load.key, hflight⟩) s hload)

/-! ## Runs -/

theorem Tracked.query (h : Tracked names number s) (table queryText : String) (lease : Lease) (prefetch : Bool) (now : ℤ) :
    Tracked names number (Projections.query options s table queryText lease prefetch now).2 := by
  rcases query_cases options s table queryText lease prefetch now with
    heq | ⟨s', ⟨hmodel, hflights, hloads, hcache⟩, hanswer⟩
  · rw [heq]
    exact h
  · have hkeeps : Keeps s s' := keeps_of_eq hmodel hflights hloads fun key entry hentry => by
      rw [← hcache]
      exact hentry
    have hread := hkeeps.tracked h
    rcases hanswer with ⟨entry, -, heq⟩ | heq
    · rw [heq]
      exact hread
    rw [heq]
    rcases shareLoad_cases s' table queryText (projectionLease s.model lease) prefetch with
      ⟨number, load, -, -, -, heq'⟩ | ⟨hall, flights, hsub, hothers, heq'⟩
    · rw [heq']
      exact hread
    · rw [heq']
      exact ⟨hread.orderly.startLoad hall hsub hothers prefetch, hread.cleared.startLoad hsub table queryText _ prefetch⟩

theorem Tracked.settle (h : Tracked names number s) (n : ℕ) (outcome : Option V) (now : ℤ) :
    Tracked names number (Projections.settle options s n outcome now) := by
  rcases settle_cases options s n outcome now with
    ⟨-, heq⟩ | heq | ⟨load, value, s', hload, hpending, -, haborted, hset, heq⟩
  · rw [heq]
    exact h
  · rw [heq]
    exact (keeps_settleLoad s n none).tracked h
  · obtain ⟨hmodel, hflights, hloads, -, hcache⟩ := setValue_spec hset
    rw [projectionLease_lease] at hcache
    rw [heq]
    apply (keeps_settleLoad s' n (some value)).tracked
    have hsame : ∀ key m, s'.flights.get? key = some m → s.flights.get? key = some m := by
      rw [hflights]
      exact fun _ _ hm => hm
    have honward : Onward s.loads s'.loads := by
      rw [hloads]
      exact onward_refl s.loads
    refine ⟨h.orderly.mono hmodel hsame honward (by rw [hloads]) fun m load _ _ hflight => ?_,
      h.cleared.mono (fun key entry hentry => ?_) hsame honward (by rw [hloads])⟩
    · rw [hflights]
      exact .inr hflight
    · rcases hcache key entry hentry with hold | ⟨hkey, hnew⟩
      · exact .inl hold
      refine .inr fun hnames => ⟨n, ?_, ?_⟩
      · rw [hnew]
      · rw [hkey, ← normalizedProjectionKey_eq, ← h.orderly.keys n load hload] at hnames
        have hold := h.cleared.pending n load hload hnames hpending
        rw [haborted] at hold
        exact hold.resolve_left Bool.false_ne_true

/-- An event that neither enters a value nor changes the scope brings back nothing that was cleared. -/
theorem Tracked.step (h : Tracked names number s) (event : Event V) (hevent : event.isLoading = true) :
    Tracked names number (Projections.step options s event) := by
  cases event with
  | change _ | setValue _ _ _ _ _ _ => cases hevent
  | read table queryText lease now => exact (keeps_read s table queryText lease now).tracked h
  | query table queryText lease prefetch now => exact h.query table queryText lease prefetch now
  | revalidate table queryText lease prefetch now =>
    exact ((keeps_invalidate s table (some queryText) lease).tracked h).query table queryText lease prefetch now
  | settle number outcome now => exact h.settle number outcome now
  | finish number => exact (keeps_finish s number).tracked h
  | invalidate table queryText lease => exact (keeps_invalidate s table queryText lease).tracked h
  | abort number => exact (keeps_abort s number).tracked h
  | disposeWorkspace => exact (keeps_disposeWorkspace s).tracked h

theorem isChange_of_isLoading {event : Event V} (h : event.isLoading = true) : event.isChange = false := by
  cases event <;> first | rfl | cases h

variable (options) in
theorem Tracked.run (h : Tracked names number s) (hevents : ∀ event ∈ events, event.isLoading = true) :
    Tracked names number (Projections.run options s events) ∧ (Projections.run options s events).model = s.model := by
  induction events generalizing s with
  | nil => exact ⟨h, rfl⟩
  | cons event events ih =>
    have hevent := hevents event mem_cons_self
    obtain ⟨htracked, hmodel⟩ := ih (h.step event hevent) fun later hlater => hevents later (mem_cons_of_mem event hlater)
    exact ⟨htracked, hmodel.trans (model_step s event (isChange_of_isLoading hevent))⟩

/-- Of the empty store nothing has been cleared yet. -/
theorem tracked_emptyStore (model : ClientModel) : Tracked (fun _ => False) 0 (emptyStore model : ProjectionState V) where
  orderly := ⟨nofun, nofun, nofun⟩
  cleared := ⟨fun _ _ h => h.elim, fun _ _ _ h => h.elim, fun _ _ _ h => h.elim, Nat.zero_le _⟩

theorem CleanInvalidation.cleared (h : CleanInvalidation s table queryText lease) (htable : table ≠ "") (horderly : Orderly s) :
    Cleared (Names s.model table queryText lease) s.loads.length (invalidate s table queryText lease) := by
  obtain ⟨-, hflights, hloads⟩ := invalidate_state s table queryText lease
  constructor
  · intro key entry hnames hentry
    rw [get?_invalidate_of_names htable hnames] at hentry
    cases hentry
  · intro key n load hnames hn hload
    rw [hflights] at hn
    rw [hloads] at hload
    exact .inl (h.quiet key n load hnames hn hload)
  · intro n load hload hnames hpending
    rw [hloads] at hload
    rcases horderly.pending n load hload hpending with haborted | hflight
    · exact .inl haborted
    · exact .inl (h.quiet load.key n load hnames hflight hload)
  · rw [hloads]

theorem Cleared.answersFresh (h : Cleared names number s) {queryText : String}
    (hnames : names (normalizedProjectionKey s.model table queryText (projectionLease s.model lease)))
    (prefetch : Bool) (now : ℤ) : AnswersFresh number (Projections.query options s table queryText lease prefetch now).1 := by
  rcases query_cases options s table queryText lease prefetch now with
    heq | ⟨s', ⟨hmodel, hflights, hloads, hcache⟩, hanswer⟩
  · rw [heq]
    trivial
  · rcases hanswer with ⟨entry, hentry, heq⟩ | heq
    · rw [heq]
      exact h.cache _ entry hnames hentry
    rw [heq]
    generalize projectionLease s.model lease = captured at hnames ⊢
    rw [← hmodel] at hnames
    rcases shareLoad_cases s' table queryText captured prefetch with
      ⟨n, load, hflight, hload, haborted, heq'⟩ | ⟨-, flights, -, -, heq'⟩
    · rw [heq']
      rw [hflights] at hflight
      rw [hloads] at hload
      have hold := h.flights _ n load hnames hflight hload
      rw [haborted] at hold
      exact hold.resolve_left Bool.false_ne_true
    · rw [heq']
      show number ≤ s'.loads.length
      rw [hloads]
      exact h.count

/-- In every run under one scope: where no load of the pages an invalidation names is in flight, and the table is no text of the
scope, no value of a load that was started before is cached or answered later, and the pages of other tables stay. -/
theorem run_staysInvalid (options : StoreOptions) (model : ClientModel) (events later : List (Event V))
    (hevents : ∀ event ∈ events, event.isLoading = true) (hlater : ∀ event ∈ later, event.isLoading = true)
    (table : String) (htable : table ≠ "") (queryText : Option String) (lease : Lease)
    (hclean : CleanInvalidation (run options (emptyStore model) events) table queryText lease) :
    StaysInvalid options (run options (emptyStore model) events) table queryText lease later := by
  have hbefore := ((tracked_emptyStore model).run options hevents).1
  generalize run options (emptyStore model) events = s at hclean hbefore ⊢
  have hkeeps := keeps_invalidate s table queryText lease
  have hafter : Tracked _ _ (invalidate s table queryText lease) :=
    ⟨(hkeeps.tracked hbefore).orderly, hclean.cleared htable hbefore.orderly⟩
  obtain ⟨htracked, hmodel⟩ := hafter.run options hlater
  replace hmodel := hmodel.trans hkeeps.model
  refine ⟨htracked.cleared.cache, fun table' text lease' prefetch now hnames => ?_, fun table' text lease' prefetch now hnames => ?_,
    fun other text captured hother => hclean.others htable hother text captured⟩
  · generalize Names s.model table queryText lease = names at htracked hnames
    rw [← hmodel] at hnames
    exact htracked.cleared.answersFresh hnames prefetch now
  · generalize Names s.model table queryText lease = names at htracked hnames
    have hagain := keeps_invalidate (run options (invalidate s table queryText lease) later) table' (some text) lease'
    rw [← hmodel, ← hagain.model] at hnames
    exact (hagain.tracked htracked).cleared.answersFresh hnames prefetch now

theorem run_staysInvalid_loadedPage : StaysInvalid ⟨30000, 96⟩
    (run ⟨30000, 96⟩ (emptyStore (revisedClient "1" "2")) (loadedPage ++ [.finish 0])) "plans" (some "\x7b\x7d") noLease
      loadedPage := by
  apply run_staysInvalid _ _ _ _ _ _ _ (by decide)
  · constructor
    · intro key number load _ hflight _
      have hnone : (run ⟨30000, 96⟩ (emptyStore (revisedClient "1" "2")) (loadedPage ++ [.finish 0])).flights.entries = [] := by
        decide +kernel
      have hmem := (Dict.mem_entries_iff _ key number).mpr hflight
      rw [hnone] at hmem
      cases hmem
    · intro hnone
      cases hnone
  · exact all_eq_true.mp rfl
  · exact all_eq_true.mp rfl

/-- An invalidated page comes back: a load that was in flight brings it. -/
theorem invalidated_page_returns : ¬∀ (options : StoreOptions) (model : ClientModel) (events later : List (Event ℕ))
    (table : String) (queryText : Option String) (lease : Lease), (∀ event ∈ events, event.isLoading = true) →
      (∀ event ∈ later, event.isLoading = true) → table ≠ "" →
        StaysInvalid options (run options (emptyStore model) events) table queryText lease later := by
  intro h
  have hstays := h ⟨30000, 96⟩ (revisedClient "1" "2") [.query "plans" "\x7b\x7d" noLease false 0] [.settle 0 (some 7) 0] "plans" none
    noLease (by simp [Event.isLoading]) (by simp [Event.isLoading]) (by decide)
  have hfound : ((run ⟨30000, 96⟩ (invalidate (run ⟨30000, 96⟩ (emptyStore (revisedClient "1" "2"))
      [.query "plans" "\x7b\x7d" noLease false 0]) "plans" none noLease) [.settle 0 (some 7) 0]).cache.get?
        (normalizedProjectionKey (revisedClient "1" "2") "plans" "\x7b\x7d" (projectionLease (revisedClient "1" "2") noLease))).map
          (fun entry : CacheEntry ℕ => entry.origin.load) = some (some 0) := by decide +kernel
  obtain ⟨entry, hentry, hload⟩ := map_eq_some_iff.mp hfound
  obtain ⟨load, hload', hle⟩ := hstays.cached _ entry ⟨_, _, rfl⟩ hentry
  rw [hload, some.injEq] at hload'
  rw [← hload'] at hle
  exact absurd hle (by decide)

end Bidding.Projections
