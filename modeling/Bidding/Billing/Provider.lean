import Bidding.Sync.Text

/-!
# What a payment provider reports

A provider is asked for the state of an order. Its answer is a JSON object, read by field: the amount paid, the identities of
the payment, and its time, which is only accepted where its zone is explicit.
-/

namespace Bidding.Billing

open Foundations

/-- The fields of a provider's answer that the activation reads; a missing field is `None`. -/
structure ProviderResult where
  status : Scalar
  amountPaid : Scalar
  amount : Scalar
  orderCode : Scalar
  paymentLinkId : Scalar
  id : Scalar
  reference : Scalar
  transactionDateTime : Scalar
  createdAt : Scalar
  deriving DecidableEq

/-- The signed fields of a webhook event. -/
structure SignedFields where
  orderCode : Scalar
  amount : Scalar
  paymentLinkId : Scalar
  status : Scalar
  deriving DecidableEq

/-- A text that `datetime.fromisoformat` reads: whether its zone is known, and the seconds since the
epoch where they can be represented. -/
structure IsoTime where
  aware : Bool
  unixSeconds : Option Int
  deriving DecidableEq

/-- The functions of the standard library the billing service calls: the case mapping of Unicode and
`datetime.fromisoformat`. -/
structure PyRuntime where
  text : PyText
  fromIsoFormat : String → Option IsoTime

def PyRuntime.plain : PyRuntime := ⟨.plain, fun _ => none⟩

def maxUnixSeconds : Int := 253402300799

/-- `_INTEGER_SECONDS.fullmatch(text)`. -/
def matchesInteger (text : String) : Bool :=
  let unsigned := match text.toList with
    | '-' :: rest => rest
    | '+' :: rest => rest
    | rest => rest
  unsigned ≠ [] && unsigned.all fun c => (decimalDigit c).isSome

/-- The end of `_unix_seconds`, for an integer. -/
def secondsInRange (seconds : Int) : Except String Int :=
  if seconds < 0 ∨ maxUnixSeconds < seconds then .error "PAYMENT_TIMESTAMP_OUT_OF_RANGE" else .ok seconds

def unixSeconds (value : Scalar) : Except String Int :=
  match value with
  | .bool _ => .error "PAYMENT_TIMESTAMP_INVALID"
  | .int n => secondsInRange n
  | .float text =>
    match (Dec.ofText text).bind Dec.toInt? with
    | some n => secondsInRange n
    | none => .error "PAYMENT_TIMESTAMP_INVALID"
  | .str text =>
    match if matchesInteger (pyStrip text) then integerOfText text else none with
    | some n => secondsInRange n
    | none => .error "PAYMENT_TIMESTAMP_INVALID"
  | .none => .error "PAYMENT_TIMESTAMP_INVALID"

/-- The text handed to `fromisoformat`: a trailing `Z` is written as an offset. -/
def isoText (text : String) : String :=
  match text.toList.getLast? with
  | some 'Z' => .ofList (text.toList.dropLast ++ "+00:00".toList)
  | some 'z' => .ofList (text.toList.dropLast ++ "+00:00".toList)
  | _ => text

/-- `parse_provider_transaction_time(result)`: the seconds, or the reason for a review. -/
def parseProviderTransactionTime (py : PyRuntime) (result : ProviderResult) : Except String Int :=
  if result.transactionDateTime.blank then
    if !result.createdAt.blank then .error "PAYMENT_OCCURRENCE_TIME_REVIEW_REQUIRED"
    else .error "PAYMENT_OCCURRENCE_TIME_MISSING"
  else
    match result.transactionDateTime with
    | .str text =>
      if matchesInteger (pyStrip text) then unixSeconds (.str text)
      else
        match py.fromIsoFormat (isoText (pyStrip text)) with
        | none => .error "PAYMENT_TIMESTAMP_INVALID"
        | some time =>
          if !time.aware then .error "PAYMENT_TIMESTAMP_TIMEZONE_REQUIRED"
          else
            match time.unixSeconds with
            | none => .error "PAYMENT_TIMESTAMP_OUT_OF_RANGE"
            | some seconds => unixSeconds (.int seconds)
    | value => unixSeconds value

def paidStatuses : List String := ["PAID", "SUCCESS", "COMPLETED", "SETTLED"]

variable (result : ProviderResult)

/-- `int(result["amountPaid"] if result.get("amountPaid") is not None else result.get("amount") or 0)`. -/
def ProviderResult.paidAmount : Option Int :=
  if result.amountPaid ≠ .none then result.amountPaid.toInt else (result.amount.orElse (.int 0)).toInt

def ProviderResult.transactionId (orderCode : Int) : String :=
  ((result.reference.orElse result.paymentLinkId).orElse (.str s!"{orderCode}-payment")).text

def mergePaymentProgress (py : PyRuntime) (metadata : Option Fields) (result : ProviderResult)
    (expected : Int) : Option Fields :=
  let current := metadata.getD .empty
  let unchanged := if current.isEmpty then none else some current
  match result.amountPaid with
  | .int paid =>
    if expected ≤ 0 ∨ paid < 0 ∨ expected < paid then unchanged
    else
      let previous := match current.getValue "amountPaid" with
        | .int previous => previous
        | _ => 0
      let paid := max paid previous
      let status :=
        if 0 < paid ∧ paid < expected then "UNDERPAID"
        else py.text.upper (result.status.orElse (.str "PENDING")).text
      some (((current.set "paymentStatus" (.str status)).set "amountPaid" (.int paid)).set
        "amountRemaining" (.int (expected - paid)))
  | _ => unchanged

def timestampReviewEvidence : Fields :=
  .ofList [("providerOrderCode", result.orderCode),
    ("paymentLinkId", result.paymentLinkId.orElse result.id), ("providerReference", result.reference),
    ("providerStatus", result.status), ("transactionDateTime", result.transactionDateTime), ("createdAt", result.createdAt)]

end Bidding.Billing
