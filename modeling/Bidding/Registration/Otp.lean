import Bidding.Foundations.Processes

/-!
# Registration codes

Registration of an account, or of an abandoned one again, rotation of its code and confirmation, each one transaction of
several statements. The unique indexes are rows. A commit tells where a code is sent, which one was refused and which
accepted.
-/

namespace Bidding.Registration

open Foundations

/-- The columns of `tai_khoan` that are read or written here. -/
structure AccountRow where
  usernameNorm : Option String
  matKhau : String
  hoTen : String
  email : String
  emailNorm : String
  daXacMinh : Bool
  registrationVerifiedAt : Option ℕ
  maXacMinh : Option String
  hanXacMinh : Option ℕ
  deriving DecidableEq

/-- A row of `rate_limit_buckets`. -/
structure BucketRow where
  windowStartedAt : ℕ
  attemptCount : ℕ
  expiresAt : ℕ
  deriving DecidableEq

/-- The columns of `pending_email_changes` that the trigger reads. -/
structure PendingRow where
  currentEmailNorm : String
  pendingEmail : String
  pendingEmailNorm : String
  expiresAt : ℕ
  verifiedAt : Option ℕ
  deriving DecidableEq

/-- Accounts, the entries of their unique indexes, and what belongs to an account: its failure bucket,
whether it has an external identity, and its pending change of the address. -/
inductive Key where
  | account (id : String)
  | username (name : String)
  | email (address : String)
  | bucket (id : String)
  | identity (id : String)
  | pending (id : String)
  deriving DecidableEq

def Row : Key → Type
  | .account _ => AccountRow
  | .username _ => String
  | .email _ => String
  | .bucket _ => BucketRow
  | .identity _ => Unit
  | .pending _ => PendingRow

/-- `REGISTRATION_OTP_MAX_FAILURES` and `UNVERIFIED_ACCOUNT_RELEASE_SECONDS`. -/
structure Settings where
  maxFailures : ℕ
  releaseSeconds : ℕ
  one_le_maxFailures : 1 ≤ maxFailures
  hour_le_releaseSeconds : 3600 ≤ releaseSeconds

/-- `generate_otp`, by what `randbelow` draws. -/
def generateOtp (draw : Fin 900000) : String := toString (draw.val + 100000)

section Code

variable (digest : String → String → String)

/-- `hash_registration_otp`; `digest` is the keyed digest of an account and a code. -/
def hashRegistrationOtp (code userId : String) : String := "hmac-sha256$" ++ digest userId code

def verifyRegistrationOtp (stored code userId : String) : Bool :=
  "hmac-sha256$".isPrefixOf stored && stored = hashRegistrationOtp digest code userId

def CollisionFree : Prop :=
  ∀ userId code code' : String, code.length ≤ 6 → code'.length ≤ 6 → digest userId code = digest userId code' → code = code'

end Code

variable (id : String)

/-- A row of `tai_khoan` with its entries in the unique indexes; `old` is the row it takes the place of. -/
def putAccount (old : Option AccountRow) (row : AccountRow) : Statement Row
  | .account id', _ => if id' = id then some (some row) else none
  | .username name, _ =>
    if row.usernameNorm = some name then some (some id)
    else if (old.bind AccountRow.usernameNorm) = some name then some none else none
  | .email address, _ =>
    if row.emailNorm = address then some (some id)
    else if (old.map AccountRow.emailNorm) = some address then some none else none
  | _, _ => none

/-- An `UPDATE` of one account that touches no index. -/
def updateAccount (f : AccountRow → AccountRow) : Statement Row
  | .account id', some row => if id' = id then some (some (f row)) else none
  | _, _ => none

/-- `clear_rate_limit_buckets`. -/
def clearBucket : Statement Row
  | .bucket id', _ => if id' = id then some none else none
  | _, _ => none

/-- The bucket after an attempt in a window of 24 hours. -/
def consumeAttempt (settings : Settings) (now : ℕ) : Option BucketRow → BucketRow
  | none => ⟨now, 1, now + 24 * 3600⟩
  | some bucket =>
    if bucket.expiresAt ≤ now then ⟨now, 1, now + 24 * 3600⟩
    else { bucket with attemptCount := min (bucket.attemptCount + 1) (settings.maxFailures + 1) }

/-- The upsert of `get_rate_limit_decision_in_transaction`. -/
def putBucket (bucket : BucketRow) : Statement Row
  | .bucket id', _ => if id' = id then some (some bucket) else none
  | _, _ => none

/-- `bf_validate_verified_email_change`, the trigger of an update of `email` or `email_norm`; its clock is the
beginning of the transaction. -/
def validateVerifiedEmailChange (old : AccountRow) (email : String) (pending : Option PendingRow) (now : ℕ) : Bool :=
  old.emailNorm = email || pending.any fun change =>
    change.currentEmailNorm = old.emailNorm && change.pendingEmailNorm = email && change.pendingEmail = email &&
      change.verifiedAt.any (fun verifiedAt => verifiedAt ≤ change.expiresAt) && now < change.expiresAt

/-! ## Processes -/

/-- The arguments of `_create_unverified_account`, with the id of a new account. -/
structure UnverifiedAccount where
  username : String
  passwordHash : String
  name : String
  email : String
  draw : Fin 900000
  userUuid : String
  deriving DecidableEq

structure Selected where
  id : String
  daXacMinh : Bool
  hanXacMinh : Option ℕ
  deriving DecidableEq

/-- `mailed` has the rows in conflict, and those of which it is still to be asked whether they are
abandoned. -/
inductive RegisterPhase where
  | begun
  | named (usernameRow : Option Selected)
  | mailed (conflicting rest : List Selected)
  | reclaiming (id : String)
  | reclaimed (id : String)
  | creating
  | issued (id : String)
  deriving DecidableEq

structure Recipient where
  id : String
  hoTen : String
  email : String
  deriving DecidableEq

inductive RotatePhase where
  | begun
  | found (user : Recipient)
  | timed (user : Recipient) (expiry : ℕ)
  | updated (user : Recipient)
  | cleared (user : Recipient)
  deriving DecidableEq

inductive ConfirmPhase where
  | begun
  | selected (id : String) (maXacMinh : Option String) (hanXacMinh : Option ℕ)
  | judged (id stored : String) (hanXacMinh : Option ℕ) (now : ℕ)
  | counted (id : String) (attemptCount : ℕ)
  | failed (id : String)
  | cleared (id : String) (currentTime : ℕ)
  | verified (id : String)
  deriving DecidableEq

structure Presented where
  code : String
  short : code.length ≤ 6
  deriving DecidableEq

/-- A process; a registration with the time its code has read. -/
inductive Task where
  | idle
  | register (phase : RegisterPhase) (r : UnverifiedAccount) (now : ℕ)
  | rotate (phase : RotatePhase) (username : String) (draw : Fin 900000)
  | confirm (phase : ConfirmPhase) (username : String) (presented : Presented)
  deriving DecidableEq

/-- What a commit means: a code is sent to an address, a code is refused, a code is accepted. -/
inductive Event where
  | issued (id code email : String)
  | wrong (id : String)
  | verified (id code : String)
  deriving DecidableEq

/-- `abandoned`, but for the external identity. -/
def Selected.stale (row : Selected) (settings : Settings) (now : ℕ) : Bool :=
  !row.daXacMinh && row.hanXacMinh.any fun expiry => expiry + settings.releaseSeconds ≤ now

/-- The row of an abandoned account after it is registered again. -/
def reclaimRow (digest : String → String → String) (r : UnverifiedAccount) (now : ℕ) (id : String) (row : AccountRow) :
    AccountRow :=
  { row with
    usernameNorm := some r.username
    matKhau := r.passwordHash
    hoTen := r.name
    email := r.email
    emailNorm := r.email
    maXacMinh := some (hashRegistrationOtp digest (generateOtp r.draw) id)
    hanXacMinh := some (now + 600) }

def createRow (digest : String → String → String) (r : UnverifiedAccount) (now : ℕ) : AccountRow where
  usernameNorm := some r.username
  matKhau := r.passwordHash
  hoTen := r.name
  email := r.email
  emailNorm := r.email
  daXacMinh := false
  registrationVerifiedAt := none
  maXacMinh := some (hashRegistrationOtp digest (generateOtp r.draw) r.userUuid)
  hanXacMinh := some (now + 600)

section Next

variable (settings : Settings) (digest : String → String → String) (sees : ∀ k, Option (Row k))

/-- `SELECT ... FOR UPDATE` of the account an index entry names. -/
def selectForUpdate (index : Option String) : Option (Request Row × Option Selected) :=
  match index with
  | none => some (.read, none)
  | some id =>
    match sees (.account id) with
    | none => none
    | some (row : AccountRow) => some (.lock (.account id), some ⟨id, row.daXacMinh, row.hanXacMinh⟩)

def unique (r : UnverifiedAccount) (id : String) : Bool :=
  (sees (.username r.username)).all (fun holder : String => holder = id) &&
    (sees (.email r.email)).all fun holder : String => holder = id

/-- The next statement of `_create_unverified_account`. -/
def nextRegister (r : UnverifiedAccount) (c : ℕ) : RegisterPhase → Option (Request Row × RegisterPhase)
  | .begun => (selectForUpdate sees (sees (.username r.username))).map fun (request, row) => (request, .named row)
  | .named usernameRow => (selectForUpdate sees (sees (.email r.email))).map fun (request, row) =>
    (request, .mailed (usernameRow.toList ++ row.toList) (usernameRow.toList ++ row.toList))
  | .mailed conflicting (row :: rest) =>
    if row.stale settings c && (sees (.identity row.id)).isNone then some (.read, .mailed conflicting rest) else none
  | .mailed [] [] => some (.read, .creating)
  | .mailed (row :: others) [] =>
    if others.all fun other => other.id = row.id then some (.read, .reclaiming row.id) else none
  | .reclaiming id =>
    match sees (.account id) with
    | none => some (.read, .reclaimed id)
    | some (row : AccountRow) =>
      if row.daXacMinh then some (.read, .reclaimed id)
      else if validateVerifiedEmailChange row r.email (sees (.pending id)) c && unique sees r id then
        some (.write (putAccount id (some row) (reclaimRow digest r c id row)), .reclaimed id)
      else none
  | .reclaimed id => some (.write (clearBucket id), .issued id)
  | .creating =>
    if (sees (.account r.userUuid)).isNone && (sees (.username r.username)).isNone && (sees (.email r.email)).isNone then
      some (.write (putAccount r.userUuid none (createRow digest r c)), .issued r.userUuid)
    else none
  | .issued _ => none

/-- The next statement of `_rotate_registration_otp`. -/
def nextRotate (now : ℕ) (username : String) (draw : Fin 900000) : RotatePhase → Option (Request Row × RotatePhase)
  | .begun =>
    match sees (.username username) with
    | none => none
    | some (id : String) =>
      match sees (.account id) with
      | none => none
      | some (row : AccountRow) => if row.daXacMinh then none else some (.read, .found ⟨id, row.hoTen, row.email⟩)
  | .found user => some (.read, .timed user (now + 600))
  | .timed user expiry =>
    some (.write (updateAccount user.id fun row => { row with
      maXacMinh := some (hashRegistrationOtp digest (generateOtp draw) user.id)
      hanXacMinh := some expiry }), .updated user)
  | .updated user => some (.write (clearBucket user.id), .cleared user)
  | .cleared _ => none

/-- The next statement of `_confirm_registration_otp`. -/
def nextConfirm (now : ℕ) (username : String) (presented : Presented) : ConfirmPhase → Option (Request Row × ConfirmPhase)
  | .begun =>
    match sees (.username username) with
    | none => none
    | some (id : String) =>
      match sees (.account id) with
      | none => none
      | some (row : AccountRow) => some (.lock (.account id), .selected id row.maXacMinh row.hanXacMinh)
  | .selected id maXacMinh hanXacMinh =>
    match maXacMinh with
    | none => none
    | some stored => if stored = "" then none else some (.read, .judged id stored hanXacMinh now)
  | .judged id stored hanXacMinh c =>
    if verifyRegistrationOtp digest stored presented.code id then
      if hanXacMinh.any fun expiry => expiry ≠ 0 && expiry < c then none
      else some (.write (clearBucket id), .cleared id c)
    else
      let bucket := consumeAttempt settings c (sees (.bucket id))
      some (.write (putBucket id bucket), .counted id bucket.attemptCount)
  | .counted id attemptCount =>
    if settings.maxFailures - attemptCount = 0 then
      some (.write (updateAccount id fun row => { row with maXacMinh := none, hanXacMinh := none }), .failed id)
    else none
  | .cleared id currentTime =>
    some (.write (updateAccount id fun row => { row with
      daXacMinh := true
      registrationVerifiedAt := row.registrationVerifiedAt.or (some currentTime)
      maXacMinh := none
      hanXacMinh := none }), .verified id)
  | .failed _ => none
  | .verified _ => none

end Next

def Task.finish (settings : Settings) : Task → Option Event
  | .register (.issued id) r _ => some (.issued id (generateOtp r.draw) r.email)
  | .rotate (.cleared user) _ draw => some (.issued user.id (generateOtp draw) user.email)
  | .confirm (.counted id attemptCount) _ _ => if settings.maxFailures - attemptCount = 0 then none else some (.wrong id)
  | .confirm (.failed id) _ _ => some (.wrong id)
  | .confirm (.verified id) _ presented => some (.verified id presented.code)
  | _ => none

def program (settings : Settings) (digest : String → String → String) : Program Row Task Event where
  idle := .idle
  starts := fun now t =>
    (∃ r, t = .register .begun r now) ∨ (∃ username draw, t = .rotate .begun username draw) ∨
      ∃ username presented, t = .confirm .begun username presented
  next := fun sees now t =>
    match t with
    | .idle => none
    | .register phase r c =>
      (nextRegister settings digest sees r c phase).map fun (request, phase) => (request, .register phase r c)
    | .rotate phase username draw =>
      (nextRotate digest sees now username draw phase).map fun (request, phase) => (request, .rotate phase username draw)
    | .confirm phase username presented =>
      (nextConfirm settings digest sees now username presented phase).map fun (request, phase) =>
        (request, .confirm phase username presented)
  finish := Task.finish settings

/-- A stored state with no code that was issued before: no change of an address is verified and still pending,
since the transaction that verifies one also deletes it. -/
structure Stored where
  committed : ∀ k, Option (Row k)
  noCode : ∀ (id : String) (row : AccountRow), committed (.account id) = some row → row.maXacMinh = none
  address : ∀ (id : String) (row : AccountRow), committed (.account id) = some row → row.email = row.emailNorm
  noBucket : ∀ id, committed (.account id) = none → committed (.bucket id) = none
  unverified : ∀ (id : String) (row : PendingRow), committed (.pending id) = some row → row.verifiedAt = none

def Stored.shared {ι : Type} (stored : Stored) (clock : ℕ) : Shared ι Row Event where
  tables := { committed := stored.committed, written := fun _ _ => none, locked := fun _ => none }
  clock := clock
  history := []

end Bidding.Registration
