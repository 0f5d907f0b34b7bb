import Bidding.Projections.Store

/-!
# Isolation of the page cache

A page is cached under the key of a request. The key tells apart the texts it is joined from, but it joins the revisions of a
scope before it escapes them, and puts the scope of a lease where the organization is missing.
-/

namespace Bidding.Projections

open Foundations List Option

variable {V : Type} {options : StoreOptions} {s : ProjectionState V}

/-- What a key is made of: a page, and the scope of the lease it is asked for with. -/
structure Request where
  page : Page
  scopeText : String
  deriving DecidableEq

def Request.texts (r : Request) : List String :=
  [r.page.scope.identity, orText r.page.scope.organization r.scopeText, r.page.scope.role, scopeRevision r.page.scope,
    r.page.generation, r.page.table, r.page.query]

def Request.key (r : Request) : ProjectionKey := joinParts ':' ("v1".toList :: r.texts.map encodeURIComponent)

variable (model : ClientModel) {r r' : Request} {table queryText : String} {lease : Lease} {now : ℤ} {entry : CacheEntry V} {key : ProjectionKey} {s' : ProjectionState V}

def requestOf (table queryText : String) (lease : CapturedLease) : Request :=
  ⟨pageOf model table queryText lease, lease.scope⟩

theorem normalizedProjectionKey_eq (table queryText : String) (lease : CapturedLease) :
    normalizedProjectionKey model table queryText lease = (requestOf model table queryText lease).key := rfl

theorem colon_not_mem_segments (texts : List String) : ∀ part ∈ "v1".toList :: texts.map encodeURIComponent, ':' ∉ part := by
  intro part hpart
  rcases mem_cons.mp hpart with rfl | hpart
  · decide
  · obtain ⟨text, -, rfl⟩ := mem_map.mp hpart
    exact colon_not_mem_encodeURIComponent text

theorem Request.key_inj (h : r.key = r'.key) : r.texts = r'.texts := by
  have hparts := joinParts_inj (by simp [Request.texts]) (colon_not_mem_segments r.texts) (colon_not_mem_segments r'.texts) h
  exact map_injective_iff.mpr (fun _ _ => encodeURIComponent_inj) (List.cons.inj hparts).2

@[simp] theorem projectionLease_lease (lease : CapturedLease) : projectionLease model lease.lease = lease := rfl

def ReadsOwn (options : StoreOptions) (s : ProjectionState V) (table queryText : String) (lease : Lease) (now : ℤ) : Prop :=
  ∀ entry stale, (read options s table queryText lease now).1 = some (entry, stale) →
    entry.origin.page = pageOf s.model table queryText (projectionLease s.model lease)

/-- An answer is a value given or loaded for a page, or the promise of a load that was started for it. -/
def AnswersOwn (page : Page) (answer : Answer V × ProjectionState V) : Prop :=
  match answer.1 with
  | .thrown => True
  | .cached entry => entry.origin.page = page
  | .promised number => ∀ load, answer.2.loads[number]? = some load → load.page = page

/-- A load that ends under another scope than it was started under is neither cached nor returned. -/
def DropsLate (options : StoreOptions) (s : ProjectionState V) (number : ℕ) (outcome : Option V) (now : ℤ) : Prop :=
  ∀ load, s.loads[number]? = some load → load.outcome = none →
    (captureProjectionAuthorizationScope s.model, generationOf s.model load.lease) ≠
      (load.lease.projectionAuthorizationScope, load.startedUnder) → (settle options s number outcome now).cache = s.cache ∧
      ∃ ended, (settle options s number outcome now).loads[number]? = some ended ∧ ended.outcome = some none

/-- The store keeps scopes apart when an event happens. -/
def Isolates (options : StoreOptions) (s : ProjectionState V) : Event V → Prop
  | .read table queryText lease now => ReadsOwn options s table queryText lease now
  | .query table queryText lease prefetch now =>
    AnswersOwn (pageOf s.model table queryText (projectionLease s.model lease)) (query options s table queryText lease prefetch now)
  | .revalidate table queryText lease prefetch now =>
    AnswersOwn (pageOf s.model table queryText (projectionLease s.model lease))
      (revalidate options s table queryText lease prefetch now)
  | .settle number outcome now => DropsLate options s number outcome now
  | _ => True

def TextsApart (requests : Set Request) : Prop :=
  ∀ r ∈ requests, ∀ r' ∈ requests, r.texts = r'.texts → r.page.scope = r'.page.scope

/-- A call asks for a request of the set, and a load whose scope is current ends in the workspace it was started under. -/
def Meets (requests : Set Request) (s : ProjectionState V) : Event V → Prop
  | .read table queryText lease _ | .query table queryText lease _ _ | .revalidate table queryText lease _ _
  | .setValue table queryText _ _ _ lease => requestOf s.model table queryText (projectionLease s.model lease) ∈ requests
  | .settle number (some _) _ =>
    ∀ load, s.loads[number]? = some load → load.outcome = none → load.aborted = false →
      captureProjectionAuthorizationScope s.model = load.lease.projectionAuthorizationScope →
        generationOf s.model load.lease = load.startedUnder
  | _ => True

def AllMeet (options : StoreOptions) (requests : Set Request) (s : ProjectionState V) : List (Event V) → Prop
  | [] => True
  | event :: events => Meets requests s event ∧ AllMeet options requests (step options s event) events

/-! ## What the operations keep -/

def Load.started (load : Load V) : Load V := { load with aborted := false, outcome := none }

theorem read_state (options : StoreOptions) (s : ProjectionState V) (table queryText : String) (lease : Lease) (now : ℤ) :
    (read options s table queryText lease now).2.model = s.model ∧ (read options s table queryText lease now).2.flights = s.flights ∧
      (read options s table queryText lease now).2.loads = s.loads ∧
      ∀ key, (read options s table queryText lease now).2.cache.get? key = s.cache.get? key := by
  unfold read
  dsimp only
  split
  · split
    · exact ⟨rfl, rfl, rfl, fun _ => rfl⟩
    rename_i entry hentry
    refine ⟨rfl, rfl, rfl, fun key => ?_⟩
    rw [Dict.get?_set, Dict.get?_erase]
    split
    · rename_i hkey
      rw [hkey, hentry]
    · rfl
  · exact ⟨rfl, rfl, rfl, fun _ => rfl⟩

theorem get?_of_read {stale : Bool} (h : (read options s table queryText lease now).1 = some (entry, stale)) :
    s.cache.get? (requestOf s.model table queryText (projectionLease s.model lease)).key = some entry := by
  unfold read at h
  dsimp only at h
  split at h
  · split at h
    · cases h
    · rename_i found hfound
      rw [some.injEq, Prod.mk.injEq] at h
      rw [← h.1, ← hfound, normalizedProjectionKey_eq]
  · cases h

theorem get?_of_trimCache {cache : Dict ProjectionKey (CacheEntry V)}
    (h : (trimCache options cache).get? key = some entry) : cache.get? key = some entry := by
  unfold trimCache at h
  rw [Dict.get?_filterKeys] at h
  split at h
  · exact h
  · cases h

theorem setValue_spec (h : setValue options s table queryText entry lease = some s') :
    s'.model = s.model ∧ s'.flights = s.flights ∧ s'.loads = s.loads ∧
      captureProjectionAuthorizationScope s.model = (projectionLease s.model lease).projectionAuthorizationScope ∧
      ∀ key found, s'.cache.get? key = some found → s.cache.get? key = some found ∨
        (key = (requestOf s.model table queryText (projectionLease s.model lease)).key ∧ found = entry) := by
  unfold setValue at h
  dsimp only at h
  split at h
  · rename_i hcurrent
    rw [some.injEq] at h
    rw [← h]
    refine ⟨rfl, rfl, rfl, of_decide_eq_true hcurrent, fun key found hfound => ?_⟩
    have hset := get?_of_trimCache hfound
    rw [Dict.get?_set, Dict.get?_erase] at hset
    split at hset
    · rename_i hkey
      exact .inr ⟨hkey, (some.inj hset).symm⟩
    · exact .inl hset
  · cases h

theorem get?_of_invalidate {queryText : Option String}
    (h : (invalidate s table queryText lease).cache.get? key = some entry) : s.cache.get? key = some entry := by
  unfold invalidate at h
  split at h
  · cases h
  split at h
  · rw [Dict.get?_erase] at h
    split at h
    · cases h
    · exact h
  · rw [Dict.get?_filterKeys] at h
    split at h
    · exact h
    · cases h

theorem invalidate_state (s : ProjectionState V) (table : String) (queryText : Option String) (lease : Lease) :
    (invalidate s table queryText lease).model = s.model ∧ (invalidate s table queryText lease).flights = s.flights ∧
      (invalidate s table queryText lease).loads = s.loads := by
  unfold invalidate
  split
  · exact ⟨rfl, rfl, rfl⟩
  · split <;> exact ⟨rfl, rfl, rfl⟩

/-- A load that ends is settled already, ends without a value, or is cached under its lease. -/
theorem settle_cases (options : StoreOptions) (s : ProjectionState V) (number : ℕ) (outcome : Option V) (now : ℤ) :
    ((∀ load, s.loads[number]? = some load → load.outcome ≠ none) ∧ settle options s number outcome now = s) ∨
      settle options s number outcome now = settleLoad s number none ∨
      ∃ load value s', s.loads[number]? = some load ∧ load.outcome = none ∧ outcome = some value ∧ load.aborted = false ∧
        setValue options s load.table load.query ⟨value, now, load.prefetch, ⟨load.page, some number⟩⟩ load.lease.lease = some s' ∧
        settle options s number outcome now = settleLoad s' number (some value) := by
  unfold settle
  split
  · rename_i hnone
    refine .inl ⟨fun load hload => ?_, rfl⟩
    rw [hnone] at hload
    cases hload
  · rename_i load hload
    split
    · rename_i hended
      refine .inl ⟨fun load' hload' hpending => ?_, rfl⟩
      rw [hload, some.injEq] at hload'
      rw [hload', hpending] at hended
      cases hended
    · rename_i hpending
      split
      · exact .inr (.inl rfl)
      rename_i value
      split
      · exact .inr (.inl rfl)
      rename_i hcurrent
      split
      · exact .inr (.inl rfl)
      rename_i s' hset
      have haborted : load.aborted = false := by
        cases h : load.aborted with
        | false => rfl
        | true => simp [h] at hcurrent
      refine .inr (.inr ⟨load, value, s', hload, ?_, rfl, haborted, hset, rfl⟩)
      simpa using hpending

theorem started_modify (loads : List (Load V)) (number : ℕ) {f : Load V → Load V} (hf : ∀ load, (f load).started = load.started)
    (m : ℕ) : ((loads.modify number f)[m]?).map Load.started = (loads[m]?).map Load.started := by
  rw [getElem?_modify]
  cases loads[m]? with
  | none => rfl
  | some load =>
    by_cases hm : number = m
    · simp [hm, hf]
    · simp [hm]

theorem started_foldl_abort (numbers : List ℕ) (s : ProjectionState V) (m : ℕ) :
    ((numbers.foldl abort s).loads[m]?).map Load.started = (s.loads[m]?).map Load.started := by
  induction numbers generalizing s with
  | nil => rfl
  | cons number numbers ih =>
    rw [foldl_cons, ih]
    exact started_modify s.loads number (f := fun load => { load with aborted := true }) (fun _ => rfl) m

theorem model_foldl_abort (numbers : List ℕ) (s : ProjectionState V) : (numbers.foldl abort s).model = s.model := by
  induction numbers generalizing s with
  | nil => rfl
  | cons number numbers ih =>
    rw [foldl_cons, ih]
    rfl

theorem shareLoad_cases (s : ProjectionState V) (table queryText : String) (lease : CapturedLease) (prefetch : Bool) :
    (∃ number load, s.flights.get? (normalizedProjectionKey s.model table queryText lease) = some number ∧
      s.loads[number]? = some load ∧ load.aborted = false ∧
        shareLoad s table queryText lease prefetch = (.promised number, s)) ∨
      ((∀ number load, s.flights.get? (normalizedProjectionKey s.model table queryText lease) = some number →
        s.loads[number]? = some load → load.aborted = true) ∧
        ∃ flights, (∀ key number, flights.get? key = some number → s.flights.get? key = some number) ∧
          (∀ key, key ≠ normalizedProjectionKey s.model table queryText lease → flights.get? key = s.flights.get? key) ∧
          shareLoad s table queryText lease prefetch = startLoad { s with flights := flights } table queryText lease prefetch) := by
  unfold shareLoad
  dsimp only
  cases hflight : s.flights.get? (normalizedProjectionKey s.model table queryText lease) with
  | none =>
    refine .inr ⟨fun _ _ h => ?_, s.flights, fun _ _ h => h, fun _ _ => rfl, ?_⟩
    · cases h
    · rw [bind_none]
  | some number =>
    rw [bind_some]
    cases hload : s.loads[number]? with
    | none =>
      refine .inr ⟨fun n load hn hl => ?_, s.flights, fun _ _ h => h, fun _ _ => rfl, ?_⟩
      · rw [some.injEq] at hn
        rw [← hn, hload] at hl
        cases hl
      · rw [map_none]
    | some load =>
      rw [map_some]
      cases haborted : load.aborted with
      | false => exact .inl ⟨number, load, rfl, hload, haborted, rfl⟩
      | true =>
        refine .inr ⟨fun n load' hn hl => ?_, s.flights.erase _, fun key n h => ?_, fun _ hne => Dict.get?_erase_of_ne _ hne, rfl⟩
        · rw [some.injEq] at hn
          rw [← hn, hload, some.injEq] at hl
          rw [← hl, haborted]
        · rw [Dict.get?_erase] at h
          split at h
          · cases h
          · exact h

/-- A query throws, answers from the cache under its own key, or shares a load. -/
theorem query_cases (options : StoreOptions) (s : ProjectionState V) (table queryText : String) (lease : Lease) (prefetch : Bool) (now : ℤ) :
    query options s table queryText lease prefetch now = (.thrown, s) ∨
      ∃ s', (s'.model = s.model ∧ s'.flights = s.flights ∧ s'.loads = s.loads ∧ ∀ key, s'.cache.get? key = s.cache.get? key) ∧
        ((∃ entry, s.cache.get? (requestOf s.model table queryText (projectionLease s.model lease)).key = some entry ∧
          query options s table queryText lease prefetch now = (.cached entry, s')) ∨
        query options s table queryText lease prefetch now =
          shareLoad s' table queryText (projectionLease s.model lease) prefetch) := by
  have hstate := read_state options s table queryText (projectionLease s.model lease).lease now
  unfold query
  dsimp only
  split
  · cases hread : read options s table queryText (projectionLease s.model lease).lease now with
    | mk found s' =>
      rw [hread] at hstate
      refine .inr ⟨s', hstate, ?_⟩
      rcases found with _ | ⟨entry, _ | _⟩
      · exact .inr rfl
      · refine .inl ⟨entry, ?_, rfl⟩
        have hentry := get?_of_read (congrArg Prod.fst hread)
        rwa [projectionLease_lease] at hentry
      · exact .inr rfl
  · exact .inl rfl

theorem model_query (s : ProjectionState V) (table queryText : String) (lease : Lease) (prefetch : Bool) (now : ℤ) :
    (query options s table queryText lease prefetch now).2.model = s.model := by
  rcases query_cases options s table queryText lease prefetch now with heq | ⟨s', ⟨hmodel, -⟩, ⟨entry, -, heq⟩ | heq⟩
  · rw [heq]
  · rw [heq, hmodel]
  rw [heq]
  rcases shareLoad_cases s' table queryText (projectionLease s.model lease) prefetch with
    ⟨number, load, -, -, -, heq'⟩ | ⟨-, flights, -, -, heq'⟩
  · rw [heq', hmodel]
  · rw [heq', ← hmodel]
    rfl

theorem model_settle (s : ProjectionState V) (number : ℕ) (outcome : Option V) (now : ℤ) :
    (settle options s number outcome now).model = s.model := by
  rcases settle_cases options s number outcome now with ⟨-, heq⟩ | heq | ⟨load, value, s', -, -, -, -, hset, heq⟩
  · rw [heq]
  · rw [heq]
    rfl
  · rw [heq]
    exact (setValue_spec hset).1

def Event.isChange : Event V → Bool
  | .change _ => true
  | _ => false

theorem model_step (s : ProjectionState V) (event : Event V) (h : event.isChange = false) :
    (step options s event).model = s.model := by
  cases event with
  | change model => cases h
  | read table queryText lease now => exact (read_state options s table queryText lease now).1
  | setValue table queryText value fetchedAt prefetched lease =>
    show ((setValue options s table queryText
      (givenEntry s table queryText value fetchedAt prefetched lease) lease).getD s).model = s.model
    cases hset : setValue options s table queryText (givenEntry s table queryText value fetchedAt prefetched lease) lease with
    | none => rfl
    | some s' => exact (setValue_spec hset).1
  | query table queryText lease prefetch now => exact model_query s table queryText lease prefetch now
  | revalidate table queryText lease prefetch now =>
    exact (model_query (invalidate s table (some queryText) lease) table queryText lease prefetch now).trans
      (invalidate_state s table (some queryText) lease).1
  | settle number outcome now => exact model_settle s number outcome now
  | finish number =>
    show (finish s number).model = s.model
    unfold finish
    split
    · rfl
    · split <;> rfl
  | invalidate table queryText lease => exact (invalidate_state s table queryText lease).1
  | abort number => rfl
  | disposeWorkspace => exact model_foldl_abort s.flights.values s

/-! ## What is cached is of the page its key is for -/

/-- Every cached value and every load is of the page of a request with its key, and every flight is of a load with its key. -/
structure Owned (requests : Set Request) (s : ProjectionState V) : Prop where
  cache : ∀ key entry, s.cache.get? key = some entry → ∃ r ∈ requests, r.key = key ∧ r.page = entry.origin.page
  flights : ∀ key number, s.flights.get? key = some number → ∃ load, s.loads[number]? = some load ∧ load.key = key
  loads : ∀ (number : ℕ) (load : Load V), s.loads[number]? = some load →
    ∃ r ∈ requests, r.key = load.key ∧ r.page = load.page ∧ r.scopeText = load.lease.scope

variable {requests : Set Request} {number : ℕ} {outcome : Option V}

theorem eq_of_started {load load' : Load V} (h : load.started = load'.started) :
    load.key = load'.key ∧ load.page = load'.page ∧ load.lease = load'.lease := by
  have hkey : load.started.key = load'.started.key := congrArg Load.key h
  have hpage : load.started.page = load'.started.page := congrArg Load.page h
  have hlease : load.started.lease = load'.started.lease := congrArg Load.lease h
  exact ⟨hkey, hpage, hlease⟩

theorem exists_of_started {loads loads' : List (Load V)} {m : ℕ} {load' : Load V}
    (h : (loads'[m]?).map Load.started = (loads[m]?).map Load.started) (hload' : loads'[m]? = some load') :
    ∃ load, loads[m]? = some load ∧ load.started = load'.started := by
  rw [hload', map_some, eq_comm, map_eq_some_iff] at h
  exact h

section

variable (h : Owned requests s)
include h

theorem Owned.mono (hcache : ∀ key entry, s'.cache.get? key = some entry → s.cache.get? key = some entry ∨
      ∃ r ∈ requests, r.key = key ∧ r.page = entry.origin.page)
    (hflights : ∀ key number, s'.flights.get? key = some number → s.flights.get? key = some number)
    (hloads : ∀ m : ℕ, (s'.loads[m]?).map Load.started = (s.loads[m]?).map Load.started) : Owned requests s' where
  cache key entry hentry := by
    rcases hcache key entry hentry with hold | hown
    · exact h.cache key entry hold
    · exact hown
  flights key number hnumber := by
    obtain ⟨load, hload, hkey⟩ := h.flights key number (hflights key number hnumber)
    obtain ⟨load', hload', hstarted⟩ := exists_of_started (hloads number).symm hload
    exact ⟨load', hload', (eq_of_started hstarted).1.trans hkey⟩
  loads number load' hload' := by
    obtain ⟨load, hload, hstarted⟩ := exists_of_started (hloads number) hload'
    obtain ⟨r, hr, hkey, hpage, hscope⟩ := h.loads number load hload
    obtain ⟨hkey', hpage', hlease'⟩ := eq_of_started hstarted
    exact ⟨r, hr, hkey.trans hkey', hpage.trans hpage', hscope.trans (congrArg CapturedLease.scope hlease')⟩

theorem Owned.startLoad {lease : CapturedLease} (hmem : requestOf s.model table queryText lease ∈ requests) (prefetch : Bool) :
    Owned requests (Projections.startLoad s table queryText lease prefetch).2 where
  cache := h.cache
  flights key number hnumber := by
    unfold Projections.startLoad at hnumber ⊢
    dsimp only at hnumber ⊢
    rw [Dict.get?_set] at hnumber
    split at hnumber
    · rename_i hkey
      rw [← some.inj hnumber, getElem?_concat_length]
      exact ⟨_, rfl, hkey.symm⟩
    · obtain ⟨load, hload, hkey⟩ := h.flights key number hnumber
      exact ⟨load, getElem?_append_left (List.getElem?_eq_some_iff.mp hload).1 ▸ hload, hkey⟩
  loads number load hload := by
    unfold Projections.startLoad at hload
    dsimp only at hload
    rw [getElem?_append] at hload
    split at hload
    · exact h.loads number load hload
    rw [getElem?_singleton] at hload
    split at hload
    · rw [← some.inj hload]
      exact ⟨_, hmem, rfl, rfl, rfl⟩
    · cases hload

theorem Owned.settle
    (hmeets : Meets requests s (.settle number outcome now)) : Owned requests (Projections.settle options s number outcome now) := by
  have hended (s : ProjectionState V) (outcome : Option V) (m : ℕ) :
      ((settleLoad s number outcome).loads[m]?).map Load.started = (s.loads[m]?).map Load.started :=
    started_modify s.loads number (f := fun load => { load with outcome := some outcome }) (fun _ => rfl) m
  rcases settle_cases options s number outcome now with ⟨-, heq⟩ | heq | ⟨load, value, s', hload, hpending, rfl, haborted, hset, heq⟩
  · rw [heq]
    exact h
  · rw [heq]
    exact h.mono (fun _ _ hentry => .inl hentry) (fun _ _ hnumber => hnumber) (hended s none)
  rw [heq]
  obtain ⟨-, hflights, hloads, hcurrent, hcache⟩ := setValue_spec hset
  rw [projectionLease_lease] at hcurrent hcache
  refine h.mono (fun key entry hentry => ?_) (fun key n hn => ?_) (fun m => ?_)
  · rcases hcache key entry hentry with hold | ⟨rfl, rfl⟩
    · exact .inl hold
    obtain ⟨r, hr, -, hpage, hscope⟩ := h.loads number load hload
    have hrequest : requestOf s.model load.table load.query load.lease = r := by
      have hgeneration := hmeets load hload hpending haborted hcurrent
      unfold requestOf pageOf
      rw [hgeneration, ← hscope]
      exact congrArg (fun page => (⟨page, r.scopeText⟩ : Request)) hpage.symm
    refine .inr ⟨r, hr, ?_, hpage⟩
    rw [hrequest]
  · rw [← hflights]
    exact hn
  · rw [hended s' (some value) m, hloads]

theorem Owned.query
    (hmem : requestOf s.model table queryText (projectionLease s.model lease) ∈ requests) (prefetch : Bool) (now : ℤ) :
    Owned requests (Projections.query options s table queryText lease prefetch now).2 := by
  rcases query_cases options s table queryText lease prefetch now with heq | ⟨s', ⟨hmodel, hflights, hloads, hcache⟩, hanswer⟩
  · rw [heq]
    exact h
  generalize projectionLease s.model lease = captured at hmem hanswer
  have hread : Owned requests s' := by
    refine h.mono (fun key entry hentry => .inl ?_) (fun key n hn => ?_) (fun m => ?_)
    · rw [← hcache]
      exact hentry
    · rw [← hflights]
      exact hn
    · rw [hloads]
  rcases hanswer with ⟨entry, -, heq⟩ | heq
  · rw [heq]
    exact hread
  rw [heq]
  rw [← hmodel] at hmem
  rcases shareLoad_cases s' table queryText captured prefetch with ⟨number, load, -, -, -, heq'⟩ | ⟨-, flights, hsub, -, heq'⟩
  · rw [heq']
    exact hread
  · rw [heq']
    have hcleared : Owned requests { s' with flights := flights } :=
      hread.mono (fun _ _ hentry => .inl hentry) (fun key n hn => hsub key n hn) (fun _ => rfl)
    exact hcleared.startLoad hmem prefetch

theorem Owned.invalidate (table : String) (queryText : Option String) (lease : Lease) :
    Owned requests (Projections.invalidate s table queryText lease) := by
  obtain ⟨-, hflights, hloads⟩ := invalidate_state s table queryText lease
  refine h.mono (fun key entry hentry => .inl (get?_of_invalidate hentry)) (fun key n hn => ?_) (fun m => ?_)
  · rw [← hflights]
    exact hn
  · rw [hloads]

/-- An event caches a value only under the key of the request it was loaded for. -/
theorem Owned.step (event : Event V) (hmeets : Meets requests s event) : Owned requests (Projections.step options s event) := by
  have hsame (m : ℕ) : (s.loads[m]?).map Load.started = (s.loads[m]?).map Load.started := rfl
  cases event with
  | change model => exact h.mono (fun _ _ hentry => .inl hentry) (fun _ _ hn => hn) hsame
  | read table queryText lease now =>
    obtain ⟨-, hflights, hloads, hcache⟩ := read_state options s table queryText lease now
    refine h.mono (fun key entry hentry => .inl ?_) (fun key n hn => ?_) (fun m => ?_)
    · rw [← hcache]
      exact hentry
    · rw [← hflights]
      exact hn
    · show ((Projections.read options s table queryText lease now).2.loads[m]?).map _ = _
      rw [hloads]
  | setValue table queryText value fetchedAt prefetched lease =>
    show Owned requests ((Projections.setValue options s table queryText
      (givenEntry s table queryText value fetchedAt prefetched lease) lease).getD s)
    cases hset : Projections.setValue options s table queryText
        (givenEntry s table queryText value fetchedAt prefetched lease) lease with
    | none => exact h
    | some s' =>
      obtain ⟨-, hflights, hloads, -, hcache⟩ := setValue_spec hset
      show Owned requests s'
      refine h.mono (fun key entry hentry => ?_) (fun key n hn => ?_) (fun m => ?_)
      · rcases hcache key entry hentry with hold | ⟨rfl, rfl⟩
        · exact .inl hold
        · exact .inr ⟨_, hmeets, rfl, rfl⟩
      · rw [← hflights]
        exact hn
      · rw [hloads]
  | query table queryText lease prefetch now => exact h.query hmeets prefetch now
  | revalidate table queryText lease prefetch now =>
    have hmodel := (invalidate_state s table (some queryText) lease).1
    apply (h.invalidate table (some queryText) lease).query
    rw [hmodel]
    exact hmeets
  | settle number outcome now => exact h.settle hmeets
  | finish number =>
    show Owned requests (Projections.finish s number)
    unfold Projections.finish
    split
    · exact h
    split
    · refine h.mono (fun _ _ hentry => .inl hentry) (fun key n hn => ?_) hsame
      rw [Dict.get?_erase] at hn
      split at hn
      · cases hn
      · exact hn
    · exact h
  | invalidate table queryText lease => exact h.invalidate table queryText lease
  | abort number =>
    exact h.mono (fun _ _ hentry => .inl hentry) (fun _ _ hn => hn)
      (started_modify s.loads number (f := fun load => { load with aborted := true }) fun _ => rfl)
  | disposeWorkspace =>
    refine h.mono (fun key entry hentry => ?_) (fun key n hn => ?_) (started_foldl_abort s.flights.values s)
    · cases hentry
    · cases hn

end

theorem owned_emptyStore (model : ClientModel) : Owned requests (emptyStore model : ProjectionState V) where
  cache _ _ h := by cases h
  flights _ _ h := by cases h
  loads _ _ h := by cases h

/-! ## Isolation -/

theorem page_eq (hapart : TextsApart requests) (hr : r ∈ requests) (hr' : r' ∈ requests) (h : r.key = r'.key) :
    r.page = r'.page := by
  have htexts := Request.key_inj h
  have hscope := hapart r hr r' hr' htexts
  simp only [Request.texts, List.cons.injEq] at htexts
  obtain ⟨-, -, -, -, hgeneration, htable, hquery, -⟩ := htexts
  exact Page.ext htable hquery hscope hgeneration

theorem Owned.cached_page (h : Owned requests s) (hapart : TextsApart requests) (hr : r ∈ requests)
    (hentry : s.cache.get? r.key = some entry) : entry.origin.page = r.page := by
  obtain ⟨r', hr', hkey, hpage⟩ := h.cache r.key entry hentry
  rw [← hpage]
  exact page_eq hapart hr' hr hkey

theorem Owned.answersOwn (options : StoreOptions) (h : Owned requests s) (hapart : TextsApart requests)
    (hmem : requestOf s.model table queryText (projectionLease s.model lease) ∈ requests) (prefetch : Bool) (now : ℤ) :
    AnswersOwn (pageOf s.model table queryText (projectionLease s.model lease))
      (Projections.query options s table queryText lease prefetch now) := by
  unfold AnswersOwn
  rcases query_cases options s table queryText lease prefetch now with heq | ⟨s', ⟨hmodel, hflights, hloads, -⟩, hanswer⟩
  · rw [heq]
    trivial
  generalize projectionLease s.model lease = captured at hmem hanswer ⊢
  rcases hanswer with ⟨entry, hentry, heq⟩ | heq
  · rw [heq]
    exact h.cached_page hapart hmem hentry
  rw [heq]
  rcases shareLoad_cases s' table queryText captured prefetch with
    ⟨number, load, hflight, hload, -, heq'⟩ | ⟨-, flights, -, -, heq'⟩
  · rw [heq']
    intro load' hload'
    rw [hload, some.injEq] at hload'
    rw [← hload']
    rw [hloads] at hload
    obtain ⟨r, hr, hkey, hpage, -⟩ := h.loads number load hload
    rw [hflights, hmodel, normalizedProjectionKey_eq] at hflight
    obtain ⟨load'', hload'', hkey'⟩ := h.flights _ number hflight
    rw [hload, some.injEq] at hload''
    rw [← hload''] at hkey'
    rw [← hpage]
    exact page_eq hapart hr hmem (hkey.trans hkey')
  · rw [heq']
    intro load hload
    unfold Projections.startLoad at hload
    dsimp only at hload
    rw [getElem?_concat_length, some.injEq] at hload
    rw [← hload, ← hmodel]
    rfl

theorem dropsLate (hmeets : Meets requests s (.settle number outcome now)) : DropsLate options s number outcome now := by
  intro load hload hpending hchanged
  have hended : ∃ ended, (settleLoad s number none).loads[number]? = some ended ∧ ended.outcome = some none := by
    unfold settleLoad
    dsimp only
    rw [getElem?_modify, hload]
    simp
  rcases settle_cases options s number outcome now with
    ⟨hended', -⟩ | heq | ⟨load', value, s', hload', -, rfl, haborted, hset, -⟩
  · exact absurd hpending (hended' load hload)
  · rw [heq]
    exact ⟨rfl, hended⟩
  · exfalso
    rw [hload, some.injEq] at hload'
    subst hload'
    have hcurrent := (setValue_spec hset).2.2.2.1
    rw [projectionLease_lease] at hcurrent
    apply hchanged
    rw [hcurrent, hmeets load hload hpending haborted hcurrent]

theorem Owned.isolates (h : Owned requests s) (hapart : TextsApart requests) (event : Event V)
    (hmeets : Meets requests s event) : Isolates options s event := by
  cases event with
  | read table queryText lease now =>
    intro entry stale hread
    exact h.cached_page hapart hmeets (get?_of_read hread)
  | query table queryText lease prefetch now => exact h.answersOwn options hapart hmeets prefetch now
  | revalidate table queryText lease prefetch now =>
    have hmodel := (invalidate_state s table (some queryText) lease).1
    have hown := (h.invalidate table (some queryText) lease).answersOwn options hapart
      (by rw [hmodel]; exact hmeets) prefetch now
    rw [hmodel] at hown
    exact hown
  | settle number outcome now => exact dropsLate hmeets
  | change _ | setValue _ _ _ _ _ _ | finish _ | invalidate _ _ _ | abort _ | disposeWorkspace => trivial

theorem Owned.run (h : Owned requests s) (hapart : TextsApart requests) {events : List (Event V)} {event : Event V}
    (hmeets : AllMeet options requests s (events ++ [event])) : Isolates options (Projections.run options s events) event := by
  induction events generalizing s with
  | nil => exact h.isolates hapart event hmeets.1
  | cons first events ih => exact ih (h.step first hmeets.1) hmeets.2

/-- In every run in which the requests have texts that tell their scopes apart, and no load whose scope is the current one ends
in another workspace than it was started under, the store gives only values loaded for the page that is asked for, and drops
what is loaded for a scope that has changed. -/
theorem run_isolates (options : StoreOptions) (requests : Set Request) (hapart : TextsApart requests) (model : ClientModel)
    (events : List (Event V)) (event : Event V) (hmeets : AllMeet options requests (emptyStore model) (events ++ [event])) :
    Isolates options (run options (emptyStore model) events) event :=
  (owned_emptyStore model).run hapart hmeets

/-- The scope names an organization, and no text its revision is joined from has a dot. -/
def Request.Plain (r : Request) : Prop :=
  r.page.scope.organization ≠ "" ∧ ∀ revision ∈ [r.page.scope.visibilityRevision, r.page.scope.permissionRevision,
    r.page.scope.assignmentRevision, r.page.scope.recordScopeRevision, r.page.scope.visibilityToken], '.' ∉ revision.toList

theorem textsApart_of_plain (hplain : ∀ r ∈ requests, r.Plain) : TextsApart requests := by
  intro r hr r' hr' htexts
  simp only [Request.texts, List.cons.injEq] at htexts
  obtain ⟨hidentity, horg, hrole, hrevision, -⟩ := htexts
  rw [orText, if_pos (hplain r hr).1, orText, if_pos (hplain r' hr').1] at horg
  unfold scopeRevision at hrevision
  have hparts := joinParts_inj (by rfl) (fun part hpart => ?_) (fun part hpart => ?_) (String.ofList_injective hrevision)
  · simp only [map_cons, map_nil, List.cons.injEq, String.toList_inj] at hparts
    obtain ⟨hvisibility, hpermission, hassignment, hrecord, htoken, -⟩ := hparts
    exact AuthorizationScope.ext hidentity horg hrole hvisibility hpermission hassignment hrecord htoken
  · obtain ⟨revision, hmem, rfl⟩ := mem_map.mp hpart
    exact (hplain r hr).2 revision hmem
  · obtain ⟨revision, hmem, rfl⟩ := mem_map.mp hpart
    exact (hplain r' hr').2 revision hmem

def revisedClient (visibilityRevision permissionRevision : String) : ClientModel :=
  ⟨"user", "", "org", "manager", visibilityRevision, permissionRevision, "", "", "", none, "user:org@1", "user:org"⟩

def noLease : Lease := ⟨"", "", none⟩

def loadedPage : List (Event ℕ) := [.query "plans" "\x7b\x7d" noLease false 0, .settle 0 (some 7) 0]

/-- A page that is cached, one that ends after its scope has changed back, and the first one read again. -/
def changedBack : List (Event ℕ) :=
  loadedPage ++ [.change (revisedClient "2" "2"), .query "plans" "\x7b\x7d" noLease false 0, .change (revisedClient "1" "2"),
    .settle 1 (some 8) 0]

theorem meets_settle {value : V} (h : s.loads[number]?.all (fun load => generationOf s.model load.lease = load.startedUnder)) :
    Meets requests s (.settle number (some value) now) := by
  intro load hload _ _ _
  rw [hload] at h
  exact of_decide_eq_true h

theorem run_isolates_loadedPage : Isolates ⟨30000, 96⟩ (run ⟨30000, 96⟩ (emptyStore (revisedClient "1" "2")) changedBack)
    (.read "plans" "\x7b\x7d" noLease 0) := by
  let client := revisedClient "1" "2"
  let revised := revisedClient "2" "2"
  let requests := [requestOf client "plans" "\x7b\x7d" (projectionLease client noLease),
    requestOf revised "plans" "\x7b\x7d" (projectionLease revised noLease)]
  apply run_isolates _ (fun r => r ∈ requests)
  · apply textsApart_of_plain
    intro r hr
    rcases mem_pair.mp hr with rfl | rfl
    · exact ⟨by decide, by decide⟩
    · exact ⟨by decide, by decide⟩
  · refine ⟨?_, meets_settle (by decide +kernel), trivial, ?_, trivial, meets_settle (by decide +kernel), ?_, trivial⟩
    · show requestOf _ _ _ _ ∈ requests
      decide +kernel
    · show requestOf _ _ _ _ ∈ requests
      decide +kernel
    · show requestOf _ _ _ _ ∈ requests
      decide +kernel

/-- The store does not keep all scopes apart: the revisions `1.2`, `3` and `1`, `2.3` have one text. -/
theorem revisions_not_isolated : ¬∀ (options : StoreOptions) (model : ClientModel) (events : List (Event ℕ)) (event : Event ℕ),
    Isolates options (run options (emptyStore model) events) event := by
  intro h
  have hreads := h ⟨30000, 96⟩ (revisedClient "1.2" "3") (loadedPage ++ [.change (revisedClient "1" "2.3")])
    (.read "plans" "\x7b\x7d" noLease 0)
  have hfound : ((read ⟨30000, 96⟩ (run ⟨30000, 96⟩ (emptyStore (revisedClient "1.2" "3"))
      (loadedPage ++ [.change (revisedClient "1" "2.3")])) "plans" "\x7b\x7d" noLease 0).1.map fun found =>
        found.1.origin.page.scope.visibilityRevision) = some "1.2" := by decide +kernel
  obtain ⟨⟨entry, stale⟩, hentry, hrevision⟩ := map_eq_some_iff.mp hfound
  have hpage := hreads entry stale hentry
  have hcurrent : (run ⟨30000, 96⟩ (emptyStore (revisedClient "1.2" "3"))
      (loadedPage ++ [.change (revisedClient "1" "2.3")])).model = revisedClient "1" "2.3" := rfl
  rw [hcurrent] at hpage
  dsimp only at hrevision
  rw [hpage] at hrevision
  exact absurd hrevision (by decide)

/-- The key of a plain request tells its page: the table, the query, the scope and the generation. -/
theorem page_of_key {model model' : ClientModel} {table table' queryText queryText' : String} {lease lease' : CapturedLease}
    (hplain : (requestOf model table queryText lease).Plain) (hplain' : (requestOf model' table' queryText' lease').Plain)
    (hkey : normalizedProjectionKey model table queryText lease = normalizedProjectionKey model' table' queryText' lease') :
    pageOf model table queryText lease = pageOf model' table' queryText' lease' :=
  page_eq (textsApart_of_plain fun _ => id) hplain hplain' hkey

theorem page_of_key_loaded :
    let client := revisedClient "1" "2"
    pageOf client "plans" "" (projectionLease client noLease) =
      pageOf client "plans" "" (projectionLease client ⟨"user:org@1", "", none⟩) :=
  page_of_key ⟨by decide, by decide⟩ ⟨by decide, by decide⟩ rfl

end Bidding.Projections
