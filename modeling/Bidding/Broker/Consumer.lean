import Mathlib.Algebra.Group.Nat.Defs
import Bidding.Foundations.Dict
import Bidding.Foundations.Ranges
import Bidding.Foundations.Paging

/-!
# The event broker

Events are rows of a table; their ids are drawn before their transactions commit, so that a smaller id may appear after a
larger one. Each worker keeps which events it is done with as ranges of ids, and which it has to try again.
-/

namespace Bidding.Broker

open Foundations

inductive EventStatus where
  | pending | retry | dispatched | deadLetter
  deriving DecidableEq

/-- What an event says: its type, whom it is for, and its payload. -/
structure EventContent where
  eventType : String
  organizationId : Option String
  userId : Option String
  payloadJson : Option String
  deriving DecidableEq

/-- A row of `websocket_events`. -/
structure BrokerEvent where
  id : ℕ
  content : EventContent
  status : EventStatus
  attemptCount : ℕ
  availableAt : ℕ
  lastErrorCode : Option String
  deriving DecidableEq

/-- `_BrokerConsumer`. A retry has its attempts and the time it is due. -/
structure Consumer where
  lastEventId : ℕ
  completed : List (Span ℕ)
  retries : Dict ℕ (ℕ × ℕ)

namespace Consumer

variable (c : Consumer)

def markDispatched (eventId : ℕ) : Consumer where
  lastEventId := max c.lastEventId eventId
  completed := Ranges.insert c.completed eventId (eventId + 1)
  retries := c.retries.erase eventId

def failures (eventId : ℕ) : ℕ := ((c.retries.get? eventId).getD (0, 0)).1 + 1

/-- `mark_failed(event_id, now)`: the fifth failure is the last. -/
def markFailed (eventId now : ℕ) : Consumer × EventStatus :=
  if 5 ≤ c.failures eventId then (c.markDispatched eventId, .deadLetter)
  else
    let retry := (c.failures eventId, now + min 60 (2 ^ c.failures eventId))
    ({ c with retries := c.retries.set eventId retry }, .retry)

def excludedRanges (now : ℕ) : List (Span ℕ) :=
  c.retries.entries.foldl (fun excluded entry =>
    if now < entry.2.2 then Ranges.insert excluded entry.1 (entry.1 + 1) else excluded) c.completed

def dueRetries (now : ℕ) : List ℕ :=
  c.retries.entries.filterMap fun entry => if entry.2.2 ≤ now then some entry.1 else none

def pruneBefore (firstRetainedId : Option ℕ) : Consumer :=
  match firstRetainedId with
  | none => { c with completed := [], retries := .empty }
  | some floor =>
    { c with
      completed := Ranges.dropBelow c.completed floor
      retries := c.retries.filterKeys fun id => floor ≤ id }

end Consumer

/-- The last value of a `bigint`: no range ends after it. -/
def maxBigint : ℕ := 9223372036854775807

/-- The condition of a row in `_load_broker_events`. -/
def BrokerEvent.isReady (e : BrokerEvent) (due : List ℕ) (now : ℕ) : Bool :=
  e.status ∈ [.dispatched, .deadLetter] || e.availableAt ≤ now || e.id ∈ due

variable (events : List BrokerEvent)

def loadGap (due : List ℕ) (now : ℕ) (gap : ℕ × Option ℕ) : List BrokerEvent :=
  Paging.firstRows BrokerEvent.id 500 (events.filter fun e =>
    gap.1 ≤ e.id && e.id < gap.2.getD maxBigint && e.isReady due now)

def loadBrokerEvents (c : Consumer) (now : ℕ) : List BrokerEvent :=
  Paging.firstRows BrokerEvent.id 500 ((Ranges.gaps 1 (c.excludedRanges now)).flatMap (loadGap events (c.dueRetries now) now))

def completedIds : List ℕ :=
  (events.filter fun e => e.status ∈ [.dispatched, .deadLetter]).map BrokerEvent.id

/-- `range_agg` over single ids. -/
def rangeAgg (ids : List ℕ) : List (Span ℕ) :=
  ids.foldl (fun ranges id => Ranges.insert ranges id (id + 1)) []

/-- `_pending_broker_start_id()`. -/
def pendingBrokerStart : Consumer where
  lastEventId := (events.map BrokerEvent.id).foldl max 0
  completed := rangeAgg (completedIds events)
  retries := .empty

/-- The row after a dispatch, or after one that has failed. -/
def BrokerEvent.recorded (e : BrokerEvent) (error : Option String) (now : ℕ) : BrokerEvent :=
  match error with
  | none =>
    if e.status ∈ [.pending, .retry, .deadLetter] then
      { e with status := .dispatched, attemptCount := e.attemptCount + 1, lastErrorCode := none }
    else e
  | some code =>
    if e.status ∉ [.pending, .retry] then e
    else
      let attempts := e.attemptCount + 1
      let status := if 5 ≤ attempts then EventStatus.deadLetter else .retry
      { e with
        status := status
        attemptCount := attempts
        availableAt := if status = .retry then now + min 60 (2 ^ attempts) else now
        lastErrorCode := some (.ofList (code.toList.take 96)) }

def recordBrokerDispatch (eventId : ℕ) (error : Option String) (now : ℕ) : List BrokerEvent :=
  events.map fun e => if e.id = eventId then e.recorded error now else e

/-- `SELECT MIN(id) FROM websocket_events`. -/
def firstRetained : Option ℕ := (events.map BrokerEvent.id).min?

/-! ## The workers -/

/-- Where a clean-up of the table is: rows are deleted and the smallest id of the others is known, or the
deletion is committed. -/
inductive Sweep where
  | deleting (ids : List ℕ) (floor : Option ℕ)
  | cleaned (floor : Option ℕ)
  deriving DecidableEq

/-- A worker process: its consumer, the events it has loaded and not tried yet, and its clean-up of the table. `started` are the
events completed when it started, `finished` those it is done with, `pruned` the ones it has forgotten. -/
structure Worker where
  consumer : Consumer
  batch : List ℕ
  sweep : Option Sweep
  started : List ℕ
  finished : List ℕ
  pruned : List ℕ

/-- The table, the rows of open transactions, the next id, the clock, and the workers. -/
structure World (ι : Type) where
  events : List BrokerEvent
  writing : List BrokerEvent
  nextId : ℕ
  clock : ℕ
  workers : ι → Option Worker

def Worker.start : Worker :=
  ⟨pendingBrokerStart events, [], none, completedIds events, [], []⟩

def Worker.dispatch (k : Worker) (id : ℕ) (rest : List ℕ) : Worker :=
  { k with consumer := k.consumer.markDispatched id, batch := rest, finished := id :: k.finished }

def Worker.fail (k : Worker) (id now : ℕ) (rest : List ℕ) : Worker :=
  let marked := k.consumer.markFailed id now
  let finished := if marked.2 = .deadLetter then id :: k.finished else k.finished
  { k with consumer := marked.1, batch := rest, finished := finished }

def forgotten (floor : Option ℕ) (ids : List ℕ) : List ℕ :=
  match floor with
  | none => ids
  | some floor => ids.filter fun id => id < floor

def Worker.prune (k : Worker) (floor : Option ℕ) : Worker :=
  let pruned := k.pruned ++ forgotten floor (k.finished ++ k.started)
  { k with consumer := k.consumer.pruneBefore floor, sweep := none, pruned := pruned }

def sweepOf (old : BrokerEvent → Bool) : Sweep :=
  .deleting ((events.filter old).map BrokerEvent.id) (firstRetained (events.filter fun e => !old e))

variable {ι : Type} [DecidableEq ι]

def World.setWorker (w : World ι) (i : ι) (k : Worker) : World ι :=
  { w with workers := Function.update w.workers i (some k) }

def World.delete (w : World ι) (ids : List ℕ) : World ι :=
  { w with events := w.events.filter fun e => e.id ∉ ids }

/-- One step. What a worker records of a dispatch is written by `record`, in any order with what it remembers itself; a dispatch
that fails, and a record that is lost, end in `failed`. What a clean-up has found out may be lost. -/
inductive Step (w : World ι) : World ι → Prop
  | allocate (content : EventContent) (hid : w.nextId + 1 < maxBigint) :
      Step w { w with
        writing := ⟨w.nextId, content, .pending, 0, 0, none⟩ :: w.writing, nextId := w.nextId + 1 }
  | commit (e : BrokerEvent) (h : e ∈ w.writing) :
      Step w { w with writing := w.writing.filter (·.id ≠ e.id), events := e :: w.events }
  | rollback (e : BrokerEvent) (h : e ∈ w.writing) : Step w { w with writing := w.writing.filter (·.id ≠ e.id) }
  | tick (seconds : ℕ) : Step w { w with clock := w.clock + seconds }
  | start (i : ι) : Step w (w.setWorker i (.start w.events))
  | load (i : ι) (k : Worker) (h : w.workers i = some k) (hbatch : k.batch = []) (hsweep : k.sweep = none) :
      Step w (w.setWorker i
        { k with batch := (loadBrokerEvents w.events k.consumer w.clock).map BrokerEvent.id })
  | record (id : ℕ) (error : Option String) : Step w { w with events := recordBrokerDispatch w.events id error w.clock }
  | dispatched (i : ι) (k : Worker) (id : ℕ) (rest : List ℕ) (h : w.workers i = some k)
      (hbatch : k.batch = id :: rest) : Step w (w.setWorker i (k.dispatch id rest))
  | failed (i : ι) (k : Worker) (id : ℕ) (rest : List ℕ) (h : w.workers i = some k)
      (hbatch : k.batch = id :: rest) : Step w (w.setWorker i (k.fail id w.clock rest))
  | sweep (i : ι) (k : Worker) (old : BrokerEvent → Bool) (h : w.workers i = some k)
      (hbatch : k.batch = []) : Step w (w.setWorker i { k with sweep := some (sweepOf w.events old) })
  | swept (i : ι) (k : Worker) (ids : List ℕ) (floor : Option ℕ) (h : w.workers i = some k)
      (hsweep : k.sweep = some (.deleting ids floor)) :
      Step w ((w.delete ids).setWorker i { k with sweep := some (.cleaned floor) })
  | lost (i : ι) (k : Worker) (h : w.workers i = some k) : Step w (w.setWorker i { k with sweep := none })
  | prune (i : ι) (k : Worker) (floor : Option ℕ) (h : w.workers i = some k)
      (hsweep : k.sweep = some (.cleaned floor)) : Step w (w.setWorker i (k.prune floor))

inductive Run (w : World ι) : World ι → Prop
  | start : Run w w
  | step {w' w'' : World ι} (hrun : Run w w') (h : Step w' w'') : Run w w''

end Bidding.Broker
