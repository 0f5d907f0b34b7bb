import Bidding.Audit.TamperEvident

/-!
# Checkpoints

A checkpoint keeps the heads of a log that was inspected in full. The incremental inspection goes on from its anchors
over the rows with a larger id; the full one walks every chain from its beginning and then looks the anchors up.
-/

namespace Bidding.Audit

open Foundations

/-- The table `audit_log` under its constraints; ids are given out from one. -/
structure AuditTable where
  rows : List AuditRow
  ids : (rows.map AuditRow.id).Nodup
  id_pos : ∀ r ∈ rows, 0 < r.id
  sequences : (rows.map fun r => (r.event.chainId, r.event.sequence)).Nodup
  chain_ne : ∀ r ∈ rows, r.event.chainId ≠ ""
  hash_length : ∀ r ∈ rows, r.entryHash.length = 64

/-- What an inspection reads: the rows, the stored heads and the `installation_id`. -/
structure AuditDatabase where
  log : AuditTable
  heads : ChainHeads
  installationId : Option String

/-- The digests: `sha256(…).hexdigest()` of a text, which has 64 digits, and `hmac` of a key and a text. -/
structure Digests where
  sha256 : String → String
  hmac : String → String → String
  length_sha256 : ∀ text, (sha256 text).length = 64

/-- A checkpoint, of the types `build_audit_checkpoint` writes. -/
structure Checkpoint where
  format : String
  version : Int
  installationId : String
  createdAt : String
  rowCount : Int
  heads : List HeadSummary
  aggregateHash : Option String
  digest : String
  hmacSha256 : Option String
  deriving DecidableEq

/-- `_checkpoint_material(payload)`: the fields but `integrity`, in the order of their names. -/
def Checkpoint.material (c : Checkpoint) : String :=
  .ofList ('\x7b' :: (jsonKey "aggregateHash" ++ (jsonOptional c.aggregateHash ++
  ',' :: (jsonKey "createdAt" ++ (jsonString c.createdAt ++
  ',' :: (jsonKey "format" ++ (jsonString c.format ++
  ',' :: (jsonKey "heads" ++ ((checkpointMaterial c.heads).toList ++
  ',' :: (jsonKey "installationId" ++ (jsonString c.installationId ++
  ',' :: (jsonKey "rowCount" ++ (jsonInt c.rowCount ++
  ',' :: (jsonKey "version" ++ (jsonInt c.version ++ ['\x7d'])))))))))))))))

/-- `if hmac_key`. -/
def hmacKey (key : Option String) : Option String := key.filter (· ≠ "")

section

variable (digests : Digests)

/-- `build_audit_checkpoint(…)`; `none` is the `RuntimeError`. -/
def buildAuditCheckpoint (installationId key : Option String) (now : String)
    (verification : AuditChainVerification) : Option Checkpoint :=
  if !verification.valid then none
  else
    match installationId with
    | none => none
    | some installationId =>
      if pyStrip installationId = "" then none
      else
        let payload : Checkpoint :=
          ⟨"biddingflow-audit-checkpoint", 3, installationId, now, verification.rowCount,
            verification.heads, verification.lastHash, "", none⟩
        some { payload with
          digest := digests.sha256 payload.material
          hmacSha256 := (hmacKey key).map fun key => digests.hmac key payload.material }

def verifyAuditCheckpoint (checkpoint : Checkpoint) (key : Option String) : Bool :=
  let hmacMatches := match hmacKey key with
    | some key => checkpoint.hmacSha256.getD "" = digests.hmac key checkpoint.material
    | none => true
  checkpoint.digest = digests.sha256 checkpoint.material && hmacMatches &&
    checkpoint.format = "biddingflow-audit-checkpoint" && checkpoint.version = 3 &&
    checkpoint.installationId ≠ ""

end

/-- The look at the anchors; a failure is the reason. -/
def checkAnchors (rows : List AuditRow) : List HeadSummary → Except String Unit
  | [] => .ok ()
  | head :: rest =>
    match head.id with
    | none => .error "checkpoint_shape_invalid"
    | some id =>
      match rows.find? fun r => r.event.chainId = head.chainId && r.id = id with
      | none => .error "checkpoint_head_missing"
      | some anchored =>
        if anchored.entryHash ≠ head.entryHash then .error "checkpoint_head_mismatch"
        else checkAnchors rows rest

def inspectAuditChainAgainstCheckpoint (digests : Digests) (collation : Collation)
    (db : AuditDatabase) (checkpoint : Checkpoint) (key : Option String) : AuditChainVerification :=
  let verification := inspectAuditChain digests.sha256 collation db.log.rows db.heads
  let failed (reason : String) : AuditChainVerification :=
    { verification with valid := false, failure := some reason }
  if !verification.valid then verification
  else if !verifyAuditCheckpoint digests checkpoint key then failed "checkpoint_invalid"
  else if db.installationId ≠ some checkpoint.installationId then
    failed "checkpoint_installation_mismatch"
  else
    match checkAnchors db.log.rows checkpoint.heads with
    | .error reason => failed reason
    | .ok () => verification

/-! ## The incremental inspection -/

/-- What a failure of the incremental inspection reports; heads reported from inside the loop have
no `chainId`. -/
structure IncrementalFailure where
  failure : String
  rowCount : Int
  heads : List (Option String × ChainHead)

/-- The heads of a checkpoint by chain; `none` is a shape that is refused. -/
def readStates : List HeadSummary → ChainHeads → Option ChainHeads
  | [], states => some states
  | head :: rest, states =>
    if head.chainId = "" || states.contains head.chainId || head.sequence ≤ 0
        || head.id.all (· ≤ 0) || head.entryHash.length ≠ 64 then none
    else readStates rest (states.set head.chainId ⟨head.sequence, head.id, head.entryHash⟩)

def anchorIds (heads : List HeadSummary) : List Int := heads.filterMap HeadSummary.id

/-- `max(anchor_ids, default=0)`. -/
def maximumAnchorId (heads : List HeadSummary) : Int := (anchorIds heads).foldl max 0

/-- The anchors are the rows their heads say. -/
def findAnchors (rows : List AuditRow) (heads : List HeadSummary) : List (String × ChainHead) → Except String Unit
  | [] => .ok ()
  | (chainId, state) :: rest =>
    match (rows.filter fun r => r.id ∈ anchorIds heads).find? fun r => some r.id = state.lastLogId with
    | none => .error "checkpoint_head_missing"
    | some anchor =>
      if anchor.event.chainId ≠ chainId || anchor.event.sequence ≠ state.lastSequence
          || anchor.entryHash ≠ state.lastHash then .error "checkpoint_head_mismatch"
      else findAnchors rows heads rest

/-- The variables of the loop over the tail. -/
structure TailWalk where
  states : ChainHeads
  tailCount : ℕ
  firstId : Option Int
  firstPreviousHash : Option String
  lastId : Option Int

/-- One pass of the loop; `rowCount` is that of the checkpoint. -/
def TailWalk.step (sha256 : String → String) (rowCount : Int) (w : TailWalk) (r : AuditRow) :
    Except IncrementalFailure TailWalk :=
  let chainId := r.event.chainId
  let state := (w.states.get? chainId).getD emptyHead
  let failed (reason : String) : IncrementalFailure :=
    ⟨reason, rowCount + (w.tailCount + 1 : ℕ), (w.states.set chainId state).values.map fun head => (none, head)⟩
  if r.event.sequence ≠ state.lastSequence + 1 then .error (failed "sequence_mismatch")
  else if r.previousHash ≠ state.lastHash then .error (failed "previous_hash_mismatch")
  else if entryHash sha256 r.previousHash r.event ≠ r.entryHash then
    .error (failed "entry_hash_mismatch")
  else
    .ok ⟨w.states.set chainId ⟨r.event.sequence, some r.id, r.entryHash⟩, w.tailCount + 1,
      some (w.firstId.getD r.id), some (w.firstPreviousHash.getD r.previousHash), some r.id⟩

def TailWalk.run (sha256 : String → String) (rowCount : Int) : List AuditRow → TailWalk → Except IncrementalFailure TailWalk
  | [], w => .ok w
  | r :: rest, w =>
    match w.step sha256 rowCount r with
    | .error failure => .error failure
    | .ok w => TailWalk.run sha256 rowCount rest w

/-- `sorted(states.items())` as heads. -/
def sortedHeads (states : ChainHeads) : List HeadSummary :=
  (states.entries.insertionSort fun a b => a.1 ≤ b.1).map fun entry =>
    ⟨entry.1, entry.2.lastSequence, entry.2.lastLogId, entry.2.lastHash⟩

/-- `inspect_audit_chain_incremental(…)`; the result is a valid verification or a failure. -/
def inspectAuditChainIncremental (digests : Digests) (collation : Collation) (db : AuditDatabase)
    (checkpoint : Checkpoint) (key : Option String) : Except IncrementalFailure AuditChainVerification :=
  if !verifyAuditCheckpoint digests checkpoint key then .error ⟨"checkpoint_invalid", 0, []⟩
  else if db.installationId ≠ some checkpoint.installationId then
    .error ⟨"checkpoint_installation_mismatch", 0, []⟩
  else if checkpoint.rowCount < 0 then .error ⟨"checkpoint_shape_invalid", 0, []⟩
  else
    match readStates checkpoint.heads .empty with
    | none => .error ⟨"checkpoint_shape_invalid", 0, []⟩
    | some states =>
      if checkpoint.rowCount ≠ (states.values.map ChainHead.lastSequence).sum then
        .error ⟨"checkpoint_shape_invalid", 0, []⟩
      else
        let anchorIds := anchorIds checkpoint.heads
        let anchored := db.log.rows.filter fun r => r.id ∈ anchorIds
        if anchored.length ≠ anchorIds.length then
          .error ⟨"checkpoint_head_missing", checkpoint.rowCount, []⟩
        else
          match findAnchors db.log.rows checkpoint.heads states.entries with
          | .error reason => .error ⟨reason, checkpoint.rowCount, []⟩
          | .ok () =>
            let maximum := maximumAnchorId checkpoint.heads
            let tail := (db.log.rows.filter fun r => maximum < r.id).insertionSort fun a b =>
              a.rank collation ≤ b.rank collation
            match TailWalk.run digests.sha256 checkpoint.rowCount tail
                ⟨states, 0, none, none, if maximum = 0 then none else some maximum⟩ with
            | .error failure => .error failure
            | .ok w =>
              let heads := sortedHeads w.states
              let rowCount := checkpoint.rowCount + w.tailCount
              if !sameEntries ((calculatedHeads heads).spread (emptyHeads db.heads)) db.heads then
                .error ⟨"materialized_head_mismatch", rowCount, heads.map fun head =>
                  (some head.chainId, ⟨head.sequence, head.id, head.entryHash⟩)⟩
              else
                .ok ⟨true, rowCount.toNat, w.firstId, w.firstPreviousHash, w.lastId,
                  some (digests.sha256 (checkpointMaterial heads)), none, heads⟩

end Bidding.Audit
