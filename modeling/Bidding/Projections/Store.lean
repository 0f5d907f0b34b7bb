import Bidding.Foundations.Delimited
import Bidding.Foundations.Dict
import Bidding.Foundations.UriComponent

/-!
# The store of page projections

Pages of tables are cached under a text key that names the table, the query and the scope of authorization. Loads in flight
are shared; what a load brings is entered if the scope captured at its start is the current one.
-/

namespace Bidding.Projections

open Foundations

/-! ## The scope of authorization -/

structure VisibilityObservation where
  workspaceKey : String
  token : String
  persistedToken : String
  deriving DecidableEq

/-- What the store reads of the client, as texts; what is missing is empty. -/
structure ClientModel where
  activeUserId : String
  workspaceUserId : String
  organizationId : String
  activeRole : String
  visibilityRevision : String
  permissionRevision : String
  assignmentRevision : String
  recordScopeRevision : String
  storedVisibilityToken : String
  visibility : Option VisibilityObservation
  workspaceToken : String
  workspaceScopeKey : String
  deriving DecidableEq

/-- `first || second` of texts. -/
def orText (first second : String) : String := if first ≠ "" then first else second

def projectionWorkspaceKey (model : ClientModel) : String := orText model.workspaceToken model.workspaceScopeKey

def projectionAuthorizationVisibilityToken (model : ClientModel) : String :=
  let persistedToken := model.storedVisibilityToken
  match model.visibility with
  | none => persistedToken
  | some observation =>
    if observation.workspaceKey ≠ projectionWorkspaceKey model then persistedToken
    else if persistedToken ≠ observation.persistedToken && persistedToken ≠ observation.token then persistedToken
    else observation.token

/-- A captured scope of authorization. -/
@[ext]
structure AuthorizationScope where
  identity : String
  organization : String
  role : String
  visibilityRevision : String
  permissionRevision : String
  assignmentRevision : String
  recordScopeRevision : String
  visibilityToken : String
  deriving DecidableEq

def captureProjectionAuthorizationScope (model : ClientModel) : AuthorizationScope where
  identity := orText model.activeUserId model.workspaceUserId
  organization := model.organizationId
  role := model.activeRole
  visibilityRevision := model.visibilityRevision
  permissionRevision := model.permissionRevision
  assignmentRevision := model.assignmentRevision
  recordScopeRevision := model.recordScopeRevision
  visibilityToken := projectionAuthorizationVisibilityToken model

def scopeRevision (scope : AuthorizationScope) : String :=
  String.ofList (joinParts '.' ([scope.visibilityRevision, scope.permissionRevision, scope.assignmentRevision,
    scope.recordScopeRevision, scope.visibilityToken].map String.toList))

def projectionAuthorizationScopeIsCurrent (model : ClientModel) (capturedScope : AuthorizationScope) : Bool :=
  captureProjectionAuthorizationScope model = capturedScope

structure Lease where
  token : String
  scope : String
  projectionAuthorizationScope : Option AuthorizationScope
  deriving DecidableEq

structure CapturedLease where
  token : String
  scope : String
  projectionAuthorizationScope : AuthorizationScope
  deriving DecidableEq

def projectionLease (model : ClientModel) (lease : Lease) : CapturedLease where
  token := lease.token
  scope := lease.scope
  projectionAuthorizationScope := lease.projectionAuthorizationScope.getD (captureProjectionAuthorizationScope model)

def CapturedLease.lease (lease : CapturedLease) : Lease := ⟨lease.token, lease.scope, some lease.projectionAuthorizationScope⟩

def generationOf (model : ClientModel) (lease : CapturedLease) : String := orText lease.token (projectionWorkspaceKey model)

def organizationOf (lease : CapturedLease) : String := orText lease.projectionAuthorizationScope.organization lease.scope

def scopeTexts (model : ClientModel) (lease : CapturedLease) : List String :=
  [lease.projectionAuthorizationScope.identity, organizationOf lease, lease.projectionAuthorizationScope.role,
    scopeRevision lease.projectionAuthorizationScope, generationOf model lease]

def projectionScopeSegments (model : ClientModel) (table : String) (lease : CapturedLease) : List (List Char) :=
  "v1".toList :: (scopeTexts model lease ++ [table]).map encodeURIComponent

abbrev ProjectionKey : Type := List Char

/-- `normalizedProjectionKey(model, table, query, lease)`, of the canonical text of a query. -/
def normalizedProjectionKey (model : ClientModel) (table query : String) (lease : CapturedLease) : ProjectionKey :=
  joinParts ':' (projectionScopeSegments model table lease ++ [encodeURIComponent query])

/-- What a load is started for. -/
@[ext]
structure Page where
  table : String
  query : String
  scope : AuthorizationScope
  generation : String
  deriving DecidableEq

def pageOf (model : ClientModel) (table query : String) (lease : CapturedLease) : Page :=
  ⟨table, query, lease.projectionAuthorizationScope, generationOf model lease⟩

/-! ## The store -/

/-- Where a cached value is from: the page it was given for, and the load that brought it, if any. -/
structure Origin where
  page : Page
  load : Option ℕ
  deriving DecidableEq

structure CacheEntry (V : Type) where
  value : V
  fetchedAt : ℤ
  prefetched : Bool
  origin : Origin

/-- A load: a controller with its signal, and the promise of a value. The outcome of a promise is a value, or a failure; the
workspace its key named at the start is kept as `startedUnder`. -/
structure Load (V : Type) where
  key : ProjectionKey
  table : String
  query : String
  lease : CapturedLease
  prefetch : Bool
  startedUnder : String
  aborted : Bool
  outcome : Option (Option V)

def Load.page {V : Type} (load : Load V) : Page :=
  ⟨load.table, load.query, load.lease.projectionAuthorizationScope, load.startedUnder⟩

structure StoreOptions where
  ttlMs : ℤ
  maxEntries : ℕ

/-- The client, the cache, the loads in flight by key, and all loads in the order they were started. -/
structure ProjectionState (V : Type) where
  model : ClientModel
  cache : Dict ProjectionKey (CacheEntry V)
  flights : Dict ProjectionKey ℕ
  loads : List (Load V)

section Store

variable {V : Type} (options : StoreOptions)

/-- `read(table, query, lease, now)`: the entry and whether it is stale, and the cache with the entry as the newest. -/
def read (s : ProjectionState V) (table query : String) (lease : Lease) (now : ℤ) :
    Option (CacheEntry V × Bool) × ProjectionState V :=
  let capturedLease := projectionLease s.model lease
  if projectionAuthorizationScopeIsCurrent s.model capturedLease.projectionAuthorizationScope then
    let key := normalizedProjectionKey s.model table query capturedLease
    match s.cache.get? key with
    | none => (none, s)
    | some entry =>
      (some (entry, options.ttlMs ≤ now - entry.fetchedAt), { s with cache := (s.cache.erase key).set key entry })
  else (none, s)

def trimCache (cache : Dict ProjectionKey (CacheEntry V)) : Dict ProjectionKey (CacheEntry V) :=
  cache.filterKeys fun key => key ∉ cache.keys.take (cache.keys.length - options.maxEntries)

/-- `setValue(table, query, value, lease)`, unless it throws. -/
def setValue (s : ProjectionState V) (table query : String) (entry : CacheEntry V) (lease : Lease) :
    Option (ProjectionState V) :=
  let capturedLease := projectionLease s.model lease
  if projectionAuthorizationScopeIsCurrent s.model capturedLease.projectionAuthorizationScope then
    let key := normalizedProjectionKey s.model table query capturedLease
    some { s with cache := trimCache options ((s.cache.erase key).set key entry) }
  else none

/-- What a query answers: it throws, or it gives a cached entry or the promise of a load. -/
inductive Answer (V : Type) where
  | thrown
  | cached (entry : CacheEntry V)
  | promised (load : ℕ)

def startLoad (s : ProjectionState V) (table query : String) (lease : CapturedLease) (prefetch : Bool) :
    Answer V × ProjectionState V :=
  let key := normalizedProjectionKey s.model table query lease
  let load : Load V := ⟨key, table, query, lease, prefetch, generationOf s.model lease, false, none⟩
  (.promised s.loads.length, { s with flights := s.flights.set key s.loads.length, loads := s.loads ++ [load] })

/-- Takes part in the load in flight for a key, or starts one. -/
def shareLoad (s : ProjectionState V) (table query : String) (lease : CapturedLease) (prefetch : Bool) :
    Answer V × ProjectionState V :=
  let key := normalizedProjectionKey s.model table query lease
  match (s.flights.get? key).bind fun number => (s.loads[number]?).map fun load => (number, load.aborted) with
  | some (_, true) => startLoad { s with flights := s.flights.erase key } table query lease prefetch
  | some (number, false) => (.promised number, s)
  | none => startLoad s table query lease prefetch

/-- `query(table, query, loader, options)`, and `warm` if it is to prefetch. -/
def query (s : ProjectionState V) (table queryText : String) (lease : Lease) (prefetch : Bool) (now : ℤ) :
    Answer V × ProjectionState V :=
  let capturedLease := projectionLease s.model lease
  if projectionAuthorizationScopeIsCurrent s.model capturedLease.projectionAuthorizationScope then
    match read options s table queryText capturedLease.lease now with
    | (some (entry, false), s') => (.cached entry, s')
    | (_, s') => shareLoad s' table queryText capturedLease prefetch
  else (.thrown, s)

def settleLoad (s : ProjectionState V) (number : ℕ) (outcome : Option V) : ProjectionState V :=
  { s with loads := s.loads.modify number fun load => { load with outcome := some outcome } }

/-- The loader of a load has ended: what it brought is entered, unless the load was aborted or its scope is no longer the current
one. -/
def settle (s : ProjectionState V) (number : ℕ) (outcome : Option V) (now : ℤ) : ProjectionState V :=
  match s.loads[number]? with
  | none => s
  | some load =>
    if load.outcome.isSome then s
    else
      match outcome with
      | none => settleLoad s number none
      | some value =>
        if load.aborted || !projectionAuthorizationScopeIsCurrent s.model load.lease.projectionAuthorizationScope then
          settleLoad s number none
        else
          match setValue options s load.table load.query ⟨value, now, load.prefetch, ⟨load.page, some number⟩⟩
            load.lease.lease with
          | none => settleLoad s number none
          | some s' => settleLoad s' number (some value)

/-- A load that has ended is no longer in flight. -/
def finish (s : ProjectionState V) (number : ℕ) : ProjectionState V :=
  match s.loads[number]? with
  | none => s
  | some load =>
    if load.outcome.isSome ∧ s.flights.get? load.key = some number then { s with flights := s.flights.erase load.key } else s

def tableMarker (table : String) : List Char := ':' :: encodeURIComponent table ++ [':']

/-- `invalidate(table, { query, lease })`; without a table the text is empty. -/
def invalidate (s : ProjectionState V) (table : String) (queryText : Option String) (lease : Lease) : ProjectionState V :=
  if table = "" then { s with cache := .empty }
  else
    match queryText with
    | some text => { s with cache := s.cache.erase (normalizedProjectionKey s.model table text (projectionLease s.model lease)) }
    | none => { s with cache := s.cache.filterKeys fun key => ¬tableMarker table <:+: key }

/-- `controller.abort()` of one load. -/
def abort (s : ProjectionState V) (number : ℕ) : ProjectionState V :=
  { s with loads := s.loads.modify number fun load => { load with aborted := true } }

def disposeWorkspace (s : ProjectionState V) : ProjectionState V :=
  { s.flights.values.foldl abort s with flights := .empty, cache := .empty }

def revalidate (s : ProjectionState V) (table queryText : String) (lease : Lease) (prefetch : Bool) (now : ℤ) :
    Answer V × ProjectionState V :=
  query options (invalidate s table (some queryText) lease) table queryText lease prefetch now

/-- What happens to a store: a change of the client, a call, the end of a load, or an abort by another user of the flights. -/
inductive Event (V : Type) where
  | change (model : ClientModel)
  | read (table queryText : String) (lease : Lease) (now : ℤ)
  | setValue (table queryText : String) (value : V) (fetchedAt : ℤ) (prefetched : Bool) (lease : Lease)
  | query (table queryText : String) (lease : Lease) (prefetch : Bool) (now : ℤ)
  | revalidate (table queryText : String) (lease : Lease) (prefetch : Bool) (now : ℤ)
  | settle (number : ℕ) (outcome : Option V) (now : ℤ)
  | finish (number : ℕ)
  | invalidate (table : String) (queryText : Option String) (lease : Lease)
  | abort (number : ℕ)
  | disposeWorkspace

/-- The entry a call of `setValue` makes. -/
def givenEntry (s : ProjectionState V) (table queryText : String) (value : V) (fetchedAt : ℤ) (prefetched : Bool)
    (lease : Lease) : CacheEntry V :=
  ⟨value, fetchedAt, prefetched, ⟨pageOf s.model table queryText (projectionLease s.model lease), none⟩⟩

def step (s : ProjectionState V) : Event V → ProjectionState V
  | .change model => { s with model := model }
  | .read table queryText lease now => (read options s table queryText lease now).2
  | .setValue table queryText value fetchedAt prefetched lease =>
    (setValue options s table queryText (givenEntry s table queryText value fetchedAt prefetched lease) lease).getD s
  | .query table queryText lease prefetch now => (query options s table queryText lease prefetch now).2
  | .revalidate table queryText lease prefetch now => (revalidate options s table queryText lease prefetch now).2
  | .settle number outcome now => settle options s number outcome now
  | .finish number => finish s number
  | .invalidate table queryText lease => invalidate s table queryText lease
  | .abort number => abort s number
  | .disposeWorkspace => disposeWorkspace s

def run (s : ProjectionState V) (events : List (Event V)) : ProjectionState V := events.foldl (step options) s

def emptyStore (model : ClientModel) : ProjectionState V := ⟨model, .empty, .empty, []⟩

end Store

end Bidding.Projections
