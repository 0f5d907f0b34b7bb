import Mathlib.Data.List.Sort
import Bidding.Foundations.Dict

/-!
# Plan version drafts

The drafts that the tabs of a browser share are stored in one envelope, which each call reads, changes and writes in one
transaction; between its calls a tab works on copies. Draft ids are drawn at random and are numbers here.
-/

namespace Bidding.Plans

open Foundations

/-- A draft session. -/
structure Session (α : Type) where
  draftId : ℕ
  rootId : String
  revision : ℕ
  content : α
  deriving DecidableEq

/-- What is kept of a draft that is removed; a time that cannot be read is none. -/
structure Tombstone where
  revision : ℕ
  removedAt : Option ℤ
  deriving DecidableEq

/-- The stored envelope, as `normalizeStoredEnvelope` reads it. -/
structure Envelope (α : Type) where
  sessions : List (Session α)
  tombstones : Dict ℕ Tombstone

/-- `PLAN_VERSION_DRAFT_TOMBSTONE_LIMIT`. -/
def tombstoneLimit : ℕ := 256

def removedBefore (a b : ℕ × Tombstone) : Bool :=
  match a.2.removedAt, b.2.removedAt with
  | none, _ => true
  | some _, none => false
  | some s, some t => s ≤ t

/-- `compactDraftTombstones(envelope)`: the oldest tombstones beyond the limit are dropped. -/
def compactDraftTombstones {α : Type} (envelope : Envelope α) : Envelope α :=
  let oldest := envelope.tombstones.entries.insertionSort fun a b => removedBefore a b = true
  let evicted := (oldest.take (oldest.length - tombstoneLimit)).map Prod.fst
  { envelope with tombstones := envelope.tombstones.filterKeys fun id => id ∉ evicted }

section Updates

variable {α : Type}

def Envelope.find (envelope : Envelope α) (draftId : ℕ) : Option (Session α) :=
  envelope.sessions.find? fun session => session.draftId = draftId

inductive Refusal where
  | resurrects | overwrites | removesNewer
  deriving DecidableEq

def Refusal.message : Refusal → String
  | .resurrects => "Stale plan draft revision cannot resurrect a removed session."
  | .overwrites => "Stale plan draft revision cannot overwrite a newer snapshot."
  | .removesNewer => "Stale plan draft revision cannot remove a newer snapshot."

def replaceSession (session : Session α) : List (Session α) → List (Session α)
  | [] => []
  | stored :: rest => if stored.draftId = session.draftId then session :: rest else stored :: replaceSession session rest

/-- The updater of `savePlanVersionDraftSession`, with the session that is stored. `issued` is the
authority of the object that `createPlanVersionDraftSession` has returned. -/
def saveUpdate (envelope : Envelope α) (session : Session α) (issued : Bool) : Except Refusal (Envelope α × Session α) :=
  if envelope.tombstones.contains session.draftId then .error .resurrects
  else match envelope.find session.draftId with
    | none =>
      if session.revision ≠ 0 then .error .resurrects
      else if issued = false then .error .resurrects
      else
        let persisted := { session with revision := 1 }
        .ok (compactDraftTombstones { envelope with sessions := envelope.sessions ++ [persisted] }, persisted)
    | some stored =>
      if session.revision ≠ stored.revision then .error .overwrites
      else
        let persisted := { session with revision := stored.revision + 1 }
        let sessions := replaceSession persisted envelope.sessions
        .ok (compactDraftTombstones { envelope with sessions := sessions }, persisted)

/-- The updater of `removePlanVersionDraftSession`, and whether the draft was there. -/
def removeUpdate (envelope : Envelope α) (draftId : ℕ) (expectedRevision : Option ℕ) (now : ℤ) :
    Except Refusal (Envelope α × Bool) :=
  match envelope.find draftId with
  | none => .ok (compactDraftTombstones envelope, false)
  | some stored =>
    if expectedRevision.any fun expected => expected ≠ stored.revision then .error .removesNewer
    else
      let sessions := envelope.sessions.filter fun session => session.draftId ≠ draftId
      let tombstones := envelope.tombstones.set draftId ⟨stored.revision + 1, some now⟩
      .ok (compactDraftTombstones { sessions := sessions, tombstones := tombstones }, true)

end Updates

/-! ## Tabs -/

/-- What a call does after its save: nothing more, mark records as dirty and save again, or send the draft
to the server. -/
inductive After (α : Type) where
  | done
  | dirty (content : α)
  | send

/-- Where a call of a tab is: before the transaction of a save or of a removal, or waiting for the server. -/
inductive Task (α : Type) where
  | save (session : Session α) (issued : Bool) (after : After α)
  | remove (draftId : ℕ) (expectedRevision : Option ℕ)
  | send (session : Session α)

/-- What the server's answer to a finalization is: it has committed the draft, a conflict, or none. -/
inductive Reply where
  | success | conflict | lost
  deriving DecidableEq

/-- The envelope, the sessions each tab has read, the calls under way, and the drafts removed so far. -/
structure World (κ α : Type) where
  envelope : Envelope α
  tabs : κ → List (Session α)
  calls : ℕ → Option (κ × Task α)
  nextCall : ℕ
  nextId : ℕ
  clock : ℤ
  removed : List ℕ

/-- What happens next. -/
inductive Action (κ α : Type) where
  | create (tab : κ) (rootId : String) (content : α)
  | persist (tab : κ) (session : Session α) (content : α)
  | markDirty (tab : κ) (session : Session α) (content dirty : α)
  | discard (tab : κ) (session : Session α)
  | finalize (tab : κ) (session : Session α) (content : α)
  | hydrate (tab : κ)
  | restore (tab : κ) (sessions : List (Session α))
  | setClock (now : ℤ)
  | commit (call : ℕ)
  | reply (call : ℕ) (answer : Reply)
  | abandon (call : ℕ)

section Steps

variable {κ α : Type} [DecidableEq κ]

variable (w : World κ α)

def World.call (tab : κ) (task : Task α) : World κ α :=
  { w with calls := Function.update w.calls w.nextCall (some (tab, task)), nextCall := w.nextCall + 1 }

def World.setCall (call : ℕ) (next : Option (κ × Task α)) : World κ α :=
  { w with calls := Function.update w.calls call next }

def World.publish (tab : κ) (envelope : Envelope α) : World κ α :=
  { w with envelope := envelope, tabs := Function.update w.tabs tab envelope.sessions }

def After.next (tab : κ) (persisted : Session α) : After α → Option (κ × Task α)
  | .done => none
  | .dirty content => some (tab, .save { persisted with content := content } false .done)
  | .send => some (tab, .send persisted)

/-- The transaction of a call. A refused update raises, which ends the call. -/
def World.commit (call : ℕ) (tab : κ) : Task α → Option (World κ α)
  | .save session issued after =>
    match saveUpdate w.envelope session issued with
    | .error _ => some (w.setCall call none)
    | .ok (envelope, persisted) => some ((w.publish tab envelope).setCall call (after.next tab persisted))
  | .remove draftId expectedRevision =>
    match removeUpdate w.envelope draftId expectedRevision w.clock with
    | .error _ => some (w.setCall call none)
    | .ok (envelope, existed) =>
      let removed := if existed then draftId :: w.removed else w.removed
      some ({ w.publish tab envelope with removed := removed }.setCall call none)
  | .send _ => none

/-- What an action does; nothing where it cannot be taken.

`persist`, `markDirty` and `finalize` work on a clone of a session of the tab; only `create` saves the issued object, once.
`discard` stands for every removal of a session the tab has read, `restore` sets what a tab has read to anything, as a
checkpoint does. -/
def World.act (w : World κ α) : Action κ α → Option (World κ α)
  | .create tab rootId content =>
    let session := ⟨w.nextId, rootId, 0, content⟩
    some ({ w with nextId := w.nextId + 1 }.call tab (.save session true .done))
  | .persist tab session content =>
    if session.draftId ∈ (w.tabs tab).map Session.draftId then
      some (w.call tab (.save { session with content := content } false .done))
    else none
  | .markDirty tab session content dirty =>
    if session.draftId ∈ (w.tabs tab).map Session.draftId then
      some (w.call tab (.save { session with content := content } false (.dirty dirty)))
    else none
  | .discard tab session =>
    if session.draftId ∈ (w.tabs tab).map Session.draftId then
      some (w.call tab (.remove session.draftId (some session.revision)))
    else none
  | .finalize tab session content =>
    if session.draftId ∈ (w.tabs tab).map Session.draftId then
      some (w.call tab (.save { session with content := content } false .send))
    else none
  | .hydrate tab => some { w with tabs := Function.update w.tabs tab w.envelope.sessions }
  | .restore tab sessions => some { w with tabs := Function.update w.tabs tab sessions }
  | .setClock now => some { w with clock := now }
  | .commit call => (w.calls call).bind fun entry => w.commit call entry.1 entry.2
  | .reply call answer =>
    match w.calls call with
    | some (tab, .send session) =>
      if answer = .lost then some (w.setCall call none)
      else some (w.setCall call (some (tab, .remove session.draftId (some session.revision))))
    | _ => none
  | .abandon call => some (w.setCall call none)

inductive Run (start : World κ α) : World κ α → Prop
  | start : Run start start
  | step {w w' : World κ α} {a : Action κ α} (hrun : Run start w) (h : w.act a = some w') : Run start w'

end Steps

end Bidding.Plans
