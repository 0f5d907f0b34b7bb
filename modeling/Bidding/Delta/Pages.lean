import Bidding.Delta.Access
import Bidding.Foundations.Collation
import Mathlib.Order.Lattice.Nat

/-!
# Delta pages

The candidates beyond the marker, the batched read authorization, the loop that fills the page, and the signed cursor that
resumes it. The collation, the signature and how a record is projected and measured are parameters.
-/

namespace Bidding.Delta

open Foundations

inductive Kind where
  | delete
  | upsert
  deriving DecidableEq

/-- The text of the column `kind`. -/
def Kind.text : Kind → String
  | .delete => "delete"
  | .upsert => "upsert"

/-- A row of the union query; `record` is `record_json` of a live row and `snapshot_json` of a
tombstone, read as an object. -/
structure Candidate where
  version : ℕ
  kind : Kind
  table : TableKey
  recordId : String
  record : Fields
  deriving DecidableEq

/-- The position a page has come to, as the cursor carries it. -/
structure Marker where
  version : ℕ
  kind : String
  table : String
  recordId : String
  deriving DecidableEq

def Candidate.marker (c : Candidate) : Marker :=
  ⟨c.version, c.kind.text, c.table.payloadKey, c.recordId⟩

/-- The row value `(version, kind, table_key, record_id)` the query compares. -/
abbrev Position (collation : Collation) : Type :=
  ℕ ×ₗ Collated collation ×ₗ Collated collation ×ₗ Collated collation

def Marker.position (collation : Collation) (m : Marker) : Position collation :=
  toLex (m.version, toLex (m.kind, toLex (m.table, m.recordId)))

def Candidate.position (collation : Collation) (c : Candidate) : Position collation :=
  c.marker.position collation

def LiveRow.candidate (t : TableKey) (r : LiveRow) : Candidate := ⟨r.version, .upsert, t, r.id, r.columns⟩

def Tombstone.candidate (d : Tombstone) : Candidate :=
  ⟨d.version, .delete, d.table, d.recordId, d.snapshot⟩

variable (db : Database)

variable (reader : Reader)

/-- `_delta_union_sql`: the changes of the range the reader's scope shows. -/
def Database.deltaUnion (after through : ℕ) : List Candidate :=
  (TableKey.all.flatMap fun t => ((db.rows t).filter fun r =>
    db.livePredicate reader t r && after < r.version && r.version ≤ through).map (LiveRow.candidate t))
  ++ TableKey.all.flatMap fun t => (db.tombstones.filter fun d =>
    d.table = t && db.deletionPredicate reader d && after < d.version && d.version ≤ through).map Tombstone.candidate

def Database.delta (collation : Collation) (after through : ℕ) : List Candidate :=
  (db.deltaUnion reader after through).insertionSort fun c d => c.position collation ≤ d.position collation

def Database.loadCandidates (collation : Collation) (after through : ℕ) (marker : Marker) (limit : ℕ) : List Candidate :=
  ((db.delta reader collation after through).filter fun c =>
    decide (marker.position collation < c.position collation)).take limit

/-- The item of a candidate on its own. -/
def Candidate.item (c : Candidate) : ReadItem :=
  if c.record.isEmpty then { id := .str c.recordId } else mapDbToJson c.table c.record

variable (candidates : List Candidate)

/-- `_prepare_upsert_items`: the item of the live row with a key, if the page has one. -/
def preparedUpsert (t : TableKey) (id : String) : Option ReadItem :=
  (candidates.reverse.find? fun c => c.kind = .upsert && c.table = t && c.recordId = id && !c.record.isEmpty).map Candidate.item

/-- The item a page authorizes a candidate by. -/
def itemOnPage (c : Candidate) : ReadItem :=
  (preparedUpsert candidates c.table c.recordId).getD c.item

/-- `_DeltaReadAuthorization`: the ids of a table the batch policy allows. -/
def Database.allowedIds (t : TableKey) : List String :=
  ((db.filterItemsForRead reader t ((candidates.filter fun c => c.table = t).map (itemOnPage candidates))).filter
      fun item => item.id ≠ .none).map fun item => item.id.text

def Database.allows (c : Candidate) : Bool :=
  (itemOnPage candidates c).id.text ∈ db.allowedIds reader candidates c.table

/-- An entry of a page. `record` is the projected record; its field `id` is kept beside it. -/
inductive Entry (Record : Type) where
  | delete (table : TableKey) (id : String) (version : ℕ)
  | upsert (table : TableKey) (id : String) (record : Record) (version : ℕ)
  deriving DecidableEq

/-- How the records of this reader are projected and how many bytes an entry takes. Child rows,
expert relations, media paths, masked fields and delete ownership are read from the same
transaction, per record. -/
structure Rendering (Record : Type) where
  record : TableKey → Fields → Record
  size : Entry Record → ℕ

/-- The entry of a candidate that is authorized. -/
def Rendering.entry {Record : Type} (rendering : Rendering Record) (c : Candidate) : Entry Record :=
  match c.kind with
  | .delete => .delete c.table c.recordId c.version
  | .upsert => .upsert c.table c.recordId (rendering.record c.table c.record) c.version

/-- `_project_candidate` with the authorization of the page. -/
def Database.projectCandidate {Record : Type} (db : Database) (reader : Reader)
    (rendering : Rendering Record) (candidates : List Candidate) (c : Candidate) : Option (Entry Record) :=
  if db.allows reader candidates c then some (rendering.entry c) else none

inductive DeltaError where
  | cursorTampered | cursorBindingInvalid | cursorExpired | cursorInvalid
  | syncVersionInvalid | visibilityResetRequired | fullSyncRequired | recordTooLarge
  deriving DecidableEq

def DeltaError.code : DeltaError → String
  | .cursorTampered => "CURSOR_TAMPERED"
  | .cursorBindingInvalid => "CURSOR_BINDING_INVALID"
  | .cursorExpired => "CURSOR_EXPIRED"
  | .cursorInvalid => "CURSOR_INVALID"
  | .syncVersionInvalid => "SYNC_VERSION_INVALID"
  | .visibilityResetRequired => "SYNC_VISIBILITY_RESET_REQUIRED"
  | .fullSyncRequired => "FULL_SYNC_REQUIRED"
  | .recordTooLarge => "DELTA_RECORD_TOO_LARGE"

/-- `_bounded_int`; `configured` is the number the environment gives, if it gives one. -/
def boundedInt (configured : Option ℤ) (default minimum maximum : ℤ) : ℕ :=
  (min maximum (max minimum (configured.getD default))).toNat

structure Settings where
  pageItems : Option ℤ
  pageBytes : Option ℤ
  cursorTtlSeconds : Option ℤ

namespace Settings

variable (s : Settings)

/-- `SYNC_DELTA_PAGE_ITEMS`. -/
def recordLimit : ℕ := boundedInt s.pageItems 250 10 1000

/-- `SYNC_DELTA_PAGE_BYTES`. -/
def byteLimit : ℕ := boundedInt s.pageBytes 524288 16384 4194304

/-- `SYNC_DELTA_CURSOR_TTL_SECONDS`. -/
def ttl : ℕ := boundedInt s.cursorTtlSeconds 900 60 3600

def candidateLimit : ℕ := s.recordLimit * 4 + 1

end Settings

structure PageState (Record : Type) where
  entries : List (Entry Record)
  usedBytes : ℕ
  marker : Marker

/-- The loop over the candidates; the flag is `stopped_early`. -/
def readCandidates {Record : Type} (settings : Settings) (size : Entry Record → ℕ)
    (project : Candidate → Option (Entry Record)) :
    List Candidate → PageState Record → Except DeltaError (PageState Record × Bool)
  | [], s => .ok (s, false)
  | c :: rest, s =>
    match project c with
    | none => readCandidates settings size project rest { s with marker := c.marker }
    | some entry =>
      if s.entries.length ≥ settings.recordLimit ∨ s.usedBytes + size entry > settings.byteLimit then
        if s.entries = [] then .error .recordTooLarge else .ok (s, true)
      else
        readCandidates settings size project rest ⟨s.entries ++ [entry], s.usedBytes + size entry, c.marker⟩

def Database.readPage {Record : Type} (db : Database) (reader : Reader) (collation : Collation)
    (rendering : Rendering Record) (settings : Settings) (after through : ℕ) (marker : Marker) :
    Except DeltaError (List (Entry Record) × Option Marker) :=
  let candidates := db.loadCandidates reader collation after through marker settings.candidateLimit
  match readCandidates settings rendering.size (db.projectCandidate reader rendering candidates)
      candidates ⟨[], 256, marker⟩ with
  | .error e => .error e
  | .ok (s, stoppedEarly) =>
    if stoppedEarly ∨ candidates.length ≥ settings.candidateLimit then
      .ok (s.entries, some s.marker)
    else .ok (s.entries, none)

/-! ## The cursor and the route -/

/-- The payload of a cursor. -/
structure CursorPayload where
  v : ℕ
  bind : String
  after : ℕ
  through : ℕ
  marker : Marker
  exp : ℕ
  visibility : String
  deriving DecidableEq

structure Cursor where
  payload : CursorPayload
  signature : String
  deriving DecidableEq

/-- The session of the requests: the hash of workspace and account, the signature with the
session token, and the visibility token of the reader in this transaction. -/
structure Session where
  binding : String
  sign : CursorPayload → String
  visibilityToken : String
  /-- The token is a hash in hexadecimal. -/
  token_ne : visibilityToken ≠ ""

def cursorVersion : ℕ := 1

def encodeDeltaCursor (session : Session) (after through : ℕ) (marker : Marker) (expiresAt : ℕ) : Cursor :=
  let payload : CursorPayload :=
    ⟨cursorVersion, session.binding, after, through, marker, expiresAt, session.visibilityToken⟩
  ⟨payload, session.sign payload⟩

/-- The parameter `cursor` of a request. -/
inductive CursorText where
  | absent
  | unreadable
  | signed (cursor : Cursor)

def decodeDeltaCursor (session : Session) (now : ℕ) (cursor : Cursor) : Except DeltaError CursorPayload :=
  if cursor.signature ≠ session.sign cursor.payload then .error .cursorTampered
  else if cursor.payload.v ≠ cursorVersion ∨ cursor.payload.bind ≠ session.binding then
    .error .cursorBindingInvalid
  else if cursor.payload.exp < now then .error .cursorExpired
  else .ok cursor.payload

/-- A request; `afterVersion` is the number its parameter gives, if it is one. -/
structure Request where
  now : ℕ
  cursor : CursorText
  afterVersion : Option ℤ
  visibilityToken : String

structure Page (Record : Type) where
  entries : List (Entry Record)
  throughVersion : ℕ
  nextCursor : Option Cursor
  visibilityToken : String

/-- Where a request reads from: the range, the marker and the visibility token supplied. -/
def Database.readingPoint (db : Database) (session : Session) (request : Request) :
    Except DeltaError (ℕ × ℕ × Marker × String) :=
  match request.cursor with
  | .unreadable => .error .cursorInvalid
  | .signed cursor =>
    match decodeDeltaCursor session request.now cursor with
    | .error e => .error e
    | .ok payload => .ok (payload.after, payload.through, payload.marker, payload.visibility)
  | .absent =>
    match request.afterVersion with
    | none => .error .syncVersionInvalid
    | some version =>
      let after := (max 0 version).toNat
      .ok (after, db.currentVersion, ⟨after, "", "", ""⟩, request.visibilityToken)

/-- `_read_delta_page_blocking` for a session that is signed in. -/
def Database.readDeltaPage {Record : Type} (db : Database) (reader : Reader)
    (collation : Collation) (rendering : Rendering Record) (settings : Settings)
    (session : Session) (request : Request) : Except DeltaError (Page Record) :=
  match db.readingPoint session request with
  | .error e => .error e
  | .ok (after, through, marker, supplied) =>
    if (0 < after ∧ supplied = "") ∨ (supplied ≠ "" ∧ supplied ≠ session.visibilityToken) then
      .error .visibilityResetRequired
    else if after < db.minAvailableVersion then .error .fullSyncRequired
    else
      match db.readPage reader collation rendering settings after through marker with
      | .error e => .error e
      | .ok (entries, next) =>
        .ok ⟨entries, through, next.map fun m =>
          encodeDeltaCursor session after through m (request.now + settings.ttl),
          session.visibilityToken⟩

/-- The responses to a request and to those that follow it: each later request brings the cursor
of the response before it, at the next time `clock` gives; the run ends where a response has no
cursor. -/
def Database.responses {Record : Type} (db : Database) (reader : Reader)
    (collation : Collation) (rendering : Rendering Record) (settings : Settings)
    (session : Session) (request : Request) (clock : ℕ → ℕ) : ℕ → Option (Except DeltaError (Page Record))
  | 0 => some (db.readDeltaPage reader collation rendering settings session request)
  | n + 1 =>
    match db.readDeltaPage reader collation rendering settings session request with
    | .error _ => none
    | .ok page =>
      match page.nextCursor with
      | none => none
      | some cursor => db.responses reader collation rendering settings session
          ⟨clock 0, .signed cursor, none, ""⟩ (fun i => clock (i + 1)) n

end Bidding.Delta
