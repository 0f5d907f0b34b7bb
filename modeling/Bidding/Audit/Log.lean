import Mathlib.Data.List.Sort
import Bidding.Foundations.Collation
import Bidding.Foundations.JsonText

/-!
# The audit log

Every tenant has a chain of audit rows. A row carries the hash of the row before it, and the table of
heads keeps the end of every chain. `sha256(…).hexdigest()` of a text is a parameter of the model.
-/

namespace Bidding.Audit

open Foundations

def emptyAuditHash : String := .ofList (List.replicate 64 '0')

/-- The fields of a row that are hashed, and that `insert_audit_row` writes. -/
structure AuditEvent where
  chainId : String
  sequence : Int
  actorUserId : Option String
  organizationId : Option String
  action : String
  targetType : Option String
  targetId : Option String
  ipAddress : Option String
  metadataJson : Option String
  createdAt : String
  deriving DecidableEq

/-- A row of `audit_log`. -/
structure AuditRow where
  id : Int
  event : AuditEvent
  previousHash : String
  entryHash : String
  deriving DecidableEq

/-- A row of `audit_chain_heads`. -/
structure ChainHead where
  lastSequence : Int
  lastLogId : Option Int
  lastHash : String
  deriving DecidableEq

/-- `(0, None, EMPTY_AUDIT_HASH)`. -/
def emptyHead : ChainHead := ⟨0, none, emptyAuditHash⟩

/-- The table of heads, by `chain_id`. -/
abbrev ChainHeads : Type := Dict String ChainHead

/-- `_canonical_event(event)`: the fields in the order of their names. -/
def canonicalEvent (e : AuditEvent) : List Char :=
  '{' :: (jsonKey "action" ++ (jsonString e.action ++
  ',' :: (jsonKey "actor_user_id" ++ (jsonOptional e.actorUserId ++
  ',' :: (jsonKey "chain_id" ++ (jsonString e.chainId ++
  ',' :: (jsonKey "created_at" ++ (jsonString e.createdAt ++
  ',' :: (jsonKey "ip_address" ++ (jsonOptional e.ipAddress ++
  ',' :: (jsonKey "metadata_json" ++ (jsonOptional e.metadataJson ++
  ',' :: (jsonKey "organization_id" ++ (jsonOptional e.organizationId ++
  ',' :: (jsonKey "sequence" ++ (jsonInt e.sequence ++
  ',' :: (jsonKey "target_id" ++ (jsonOptional e.targetId ++
  ',' :: (jsonKey "target_type" ++ (jsonOptional e.targetType ++ ['}']))))))))))))))))))))

/-- What `_entry_hash` hashes. -/
def entryPayload (previousHash : String) (e : AuditEvent) : String :=
  .ofList (previousHash.toList ++ '\n' :: canonicalEvent e)

variable (sha256 : String → String)

def entryHash (previousHash : String) (e : AuditEvent) : String :=
  sha256 (entryPayload previousHash e)

structure AuditTables where
  log : List AuditRow
  heads : ChainHeads

/-- The arguments of `insert_audit_row`. -/
structure AuditEntry where
  actorUserId : Option String
  organizationId : Option String
  action : String
  targetType : Option String
  targetId : Option String
  ipAddress : Option String
  metadataJson : Option String
  createdAt : Option String

variable (entry : AuditEntry)

/-- `str(organization_id or "global")`. -/
def AuditEntry.chainId : String :=
  match entry.organizationId with
  | some organizationId => if organizationId = "" then "global" else organizationId
  | none => "global"

/-- `created_at or vietnam_now_sql()`. -/
def AuditEntry.timestamp (now : String) : String :=
  match entry.createdAt with
  | some createdAt => if createdAt = "" then now else createdAt
  | none => now

def AuditEntry.event (now : String) (sequence : Int) : AuditEvent :=
  ⟨entry.chainId, sequence, entry.actorUserId, entry.organizationId, entry.action, entry.targetType,
    entry.targetId, entry.ipAddress, entry.metadataJson, entry.timestamp now⟩

/-- `insert_audit_row(…)`, where the database gives the row an id. -/
def insertAuditRow (s : AuditTables) (entry : AuditEntry) (now : String) (id : Int) : AuditTables :=
  let head := (s.heads.get? entry.chainId).getD emptyHead
  let sequence := head.lastSequence + 1
  let event := entry.event now sequence
  let hash := entryHash sha256 head.lastHash event
  { log := s.log ++ [⟨id, event, head.lastHash, hash⟩]
    heads := s.heads.set entry.chainId ⟨sequence, some id, hash⟩ }

/-! ## Checking -/

/-- A head as the check computes it. -/
structure HeadSummary where
  chainId : String
  sequence : Int
  id : Option Int
  entryHash : String
  deriving DecidableEq

structure AuditChainVerification where
  valid : Bool
  rowCount : ℕ
  firstId : Option Int
  firstPreviousHash : Option String
  lastId : Option Int
  lastHash : Option String
  failure : Option String
  heads : List HeadSummary
  deriving DecidableEq

/-- The variables of the loop. `currentChain` holds the chain the loop is in, with the hash, the
sequence and the id of its last row. -/
structure Walk where
  firstId : Option Int
  firstPreviousHash : Option String
  lastId : Option Int
  currentChain : Option HeadSummary
  heads : List HeadSummary
  deriving DecidableEq

def Walk.start : Walk := ⟨none, none, none, none, []⟩

/-- The order of `ORDER BY chain_id, sequence`. -/
def AuditRow.rank (collation : Collation) (r : AuditRow) : Collated collation ×ₗ Int :=
  toLex (r.event.chainId, r.event.sequence)

/-- The loop at the start of a row: the chain it is in, begun where the row is the first of it, and the
heads of the chains before. -/
def Walk.enter (w : Walk) (chainId : String) : HeadSummary × List HeadSummary :=
  match w.currentChain with
  | some current =>
    if current.chainId = chainId then (current, w.heads)
    else (⟨chainId, 0, none, emptyAuditHash⟩, w.heads ++ [current])
  | none => (⟨chainId, 0, none, emptyAuditHash⟩, w.heads)

/-- One pass of the loop; a failure carries the result that is returned. -/
def Walk.step (rowCount : ℕ) (w : Walk) (r : AuditRow) : Except AuditChainVerification Walk :=
  let entered := w.enter r.event.chainId
  let firstId := some (w.firstId.getD r.id)
  let firstPreviousHash := some (w.firstPreviousHash.getD r.previousHash)
  let failed (reason : String) : AuditChainVerification :=
    ⟨false, rowCount, firstId, firstPreviousHash, some r.id, some entered.1.entryHash, some reason, []⟩
  if r.event.sequence ≠ entered.1.sequence + 1 then .error (failed "sequence_mismatch")
  else if r.previousHash ≠ entered.1.entryHash then .error (failed "previous_hash_mismatch")
  else if entryHash sha256 r.previousHash r.event ≠ r.entryHash then .error (failed "entry_hash_mismatch")
  else
    .ok ⟨firstId, firstPreviousHash, some r.id, some ⟨r.event.chainId, r.event.sequence, some r.id, r.entryHash⟩, entered.2⟩

def Walk.run (sha256 : String → String) (rowCount : ℕ) : List AuditRow → Walk → Except AuditChainVerification Walk
  | [], w => .ok w
  | r :: rest, w =>
    match w.step sha256 rowCount r with
    | .error failure => .error failure
    | .ok w => Walk.run sha256 rowCount rest w

def Walk.finish (w : Walk) : List HeadSummary := w.heads ++ w.currentChain.toList

def calculatedHeads (heads : List HeadSummary) : ChainHeads :=
  .ofList (heads.map fun head => (head.chainId, ⟨head.sequence, head.id, head.entryHash⟩))

def emptyHeads (stored : ChainHeads) : ChainHeads := stored.filterEntries fun _ head => head = emptyHead

def sameEntries (a b : ChainHeads) : Bool :=
  a.keys.all (fun key => a.get? key = b.get? key) && b.keys.all fun key => a.get? key = b.get? key

def checkpointMaterial (heads : List HeadSummary) : String :=
  let entry (head : HeadSummary) : List Char :=
    '{' :: (jsonKey "chainId" ++ (jsonString head.chainId ++
    ',' :: (jsonKey "entryHash" ++ (jsonString head.entryHash ++
    ',' :: (jsonKey "id" ++ ((head.id.map jsonInt).getD "null".toList ++
    ',' :: (jsonKey "sequence" ++ (jsonInt head.sequence ++ ['}']))))))))
  .ofList ('[' :: (((heads.map entry).intersperse [',']).flatten ++ [']']))

def inspectAuditChain (collation : Collation) (log : List AuditRow) (stored : ChainHeads) : AuditChainVerification :=
  let rows := log.insertionSort fun a b => a.rank collation ≤ b.rank collation
  match Walk.run sha256 log.length rows .start with
  | .error failure => failure
  | .ok w =>
    let heads := w.finish
    if !sameEntries ((calculatedHeads heads).spread (emptyHeads stored)) stored then
      ⟨false, log.length, w.firstId, w.firstPreviousHash, w.lastId,
        w.currentChain.map HeadSummary.entryHash, some "materialized_head_mismatch", heads⟩
    else
      ⟨true, log.length, w.firstId, w.firstPreviousHash, w.lastId, some (sha256 (checkpointMaterial heads)), none, heads⟩

end Bidding.Audit
