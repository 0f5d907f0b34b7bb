import Bidding.Foundations.ReadCommitted

/-!
# Sessions and recovery links of one account

Logins, checks and touches of sessions, revocations, recovery links and their redemption: transactions that interleave
statement by statement. A rollback, at any point, covers every check that fails and every error.
-/

namespace Bidding.Auth

open Foundations

/-- The columns of `tai_khoan` that are read here. -/
structure AccountRow where
  matKhau : String
  active : Bool
  deriving DecidableEq

/-- A row of `auth_sessions`. -/
structure SessionRow where
  lastSeenAt : ℕ
  idleExpiresAt : ℕ
  absoluteExpiresAt : ℕ
  revokedAt : Option ℕ
  deriving DecidableEq

/-- A row of `password_reset_tokens`. -/
structure TokenRow where
  expiresAt : ℕ
  usedAt : Option ℕ
  deriving DecidableEq

inductive Key where
  | account
  | session (token : String)
  | token (token : String)
  deriving DecidableEq

def Row : Key → Type
  | .account => AccountRow
  | .session _ => SessionRow
  | .token _ => TokenRow

/-- `UPDATE tai_khoan SET mat_khau = ?`. -/
def setPassword (passwordHash : String) : Statement Row
  | .account, some row => some (some { row with matKhau := passwordHash })
  | _, _ => none

/-- `UPDATE auth_sessions SET revoked_at = COALESCE(revoked_at, ?)`, of the sessions a condition picks. -/
def revokeSessions (picks : String → Bool) (current : ℕ) : Statement Row
  | .session token, some row =>
    if picks token then some (some { row with revokedAt := row.revokedAt.or (some current) }) else none
  | _, _ => none

variable (token : String)

def createSession (absolute idleTimeoutSeconds current : ℕ) : Statement Row
  | .session token', none =>
    if token' = token then
      some (some ⟨current, min absolute (current + max 60 idleTimeoutSeconds), absolute, none⟩)
    else none
  | _, _ => none

/-- The `UPDATE` of `touch_session`. -/
def extendSession (idleExpiry current : ℕ) : Statement Row
  | .session token', some row =>
    if token' = token ∧ row.revokedAt = none then
      some (some { row with lastSeenAt := current, idleExpiresAt := idleExpiry })
    else none
  | _, _ => none

/-- `invalidate_password_reset_tokens`. -/
def invalidateTokens (current : ℕ) : Statement Row
  | .token _, some row => if row.usedAt = none then some (some { row with usedAt := some current }) else none
  | _, _ => none

/-- The `INSERT` of a link. -/
def createToken (expiresAt : ℕ) : Statement Row
  | .token token', none => if token' = token then some (some ⟨expiresAt, none⟩) else none
  | _, _ => none

/-- The `UPDATE` that consumes a link. -/
def consumeToken (current : ℕ) : Statement Row
  | .token token', some row => if token' = token then some (some { row with usedAt := some current }) else none
  | _, _ => none

/-- The `DELETE` of links that are used or over. -/
def deleteTokens (current : ℕ) : Statement Row
  | .token _, some row => if row.expiresAt ≤ current ∨ row.usedAt ≠ none then some none else none
  | _, _ => none

/-- The session a check has loaded, with `account_status`. -/
structure SessionUser where
  accountActive : Bool
  session : SessionRow
  deriving DecidableEq

/-- The reasons of `session_invalid_reason` for a session that is there. -/
inductive InvalidReason where
  | accountInactive | sessionRevoked | tokenExpired | sessionIdleExpired
  deriving DecidableEq

variable (user : SessionUser)

def sessionInvalidReason (current : ℕ) : Option InvalidReason :=
  if !user.accountActive then some .accountInactive
  else if user.session.revokedAt.isSome then some .sessionRevoked
  else if user.session.absoluteExpiresAt ≤ current then some .tokenExpired
  else if user.session.idleExpiresAt ≤ current then some .sessionIdleExpired
  else none

/-- `idle_expiry` of a touch. -/
def idleExpiry (idleTimeoutSeconds current : ℕ) : ℕ :=
  min user.session.absoluteExpiresAt (current + max 60 idleTimeoutSeconds)

/-- What `touch_session` leaves in the loaded session. -/
def SessionUser.touched (idleTimeoutSeconds current : ℕ) : SessionUser :=
  { user with session := { user.session with
    lastSeenAt := current
    idleExpiresAt := idleExpiry user idleTimeoutSeconds current } }

/-! ## Processes -/

/-- A login through `replace_user_session`: the password hash it has checked, and the one it puts in its
place. -/
structure Login where
  token : String
  absoluteExpiresAt : ℕ
  idleTimeoutSeconds : ℕ
  expectedPasswordHash : Option String
  replacementPasswordHash : Option String
  deriving DecidableEq

/-- A link of `create_password_reset`, which asks for an active account, or of
`create_password_setup_token`. -/
structure Link where
  token : String
  ttlSeconds : ℕ
  activeOnly : Bool
  deriving DecidableEq

structure Redemption where
  token : String
  passwordHash : String
  deriving DecidableEq

inductive LoginPhase where
  | begun | locked | hashed | revoked | inserted
  deriving DecidableEq

inductive LinkPhase where
  | begun | locked | invalidated | inserted
  deriving DecidableEq

inductive RedeemPhase where
  | begun | found | locked | selected | consumed | hashed | revoked | invalidated
  deriving DecidableEq

/-- A process, with the time its code has read last. -/
inductive Task where
  | idle
  | login (phase : LoginPhase) (l : Login) (current : ℕ)
  | link (phase : LinkPhase) (l : Link) (current : ℕ)
  | redeem (phase : RedeemPhase) (r : Redemption) (current : ℕ)
  | cleanup (deleted : Bool) (current : ℕ)
  | revoke (done : Bool) (picks : String → Bool) (current : ℕ)
  | check (token : String) (user : SessionUser)
  /-- a touch: `extended` says whether its statement has run, and has met the row -/
  | touch (extended : Option Bool) (token : String) (user : SessionUser) (idleTimeoutSeconds current : ℕ)

/-- What happens for others to see. -/
inductive Event (ι : Type) where
  | opened (token : String) (expected replacement : Option String)
  | issued (token : String)
  | redeemed (token passwordHash : String)
  | loaded (i : ι) (token : String)
  | extended (token : String)
  | found (token : String) (reason : InvalidReason)
  | accepted (i : ι) (token : String)
  deriving DecidableEq

/-- The account row passes the checks of `replace_user_session`. -/
def Login.admits (l : Login) (account : AccountRow) : Bool :=
  account.active && l.expectedPasswordHash.all fun expected => account.matKhau = expected

def TokenRow.redeemable (row : TokenRow) (current : ℕ) : Bool := row.usedAt = none && current < row.expiresAt

/-- The next statement of a process, by what it sees and the clock. -/
def Task.next (sees : ∀ k, Option (Row k)) (now : ℕ) : Task → Option (Request Row × Task)
  | .login .begun l c =>
    match sees .account with
    | some account => if l.admits account then some (.lock .account, .login .locked l c) else none
    | none => none
  | .login .locked l c =>
    match l.replacementPasswordHash, sees .account with
    | none, _ => some (.read, .login .hashed l c)
    | some passwordHash, some account =>
      if account.active && l.expectedPasswordHash = some account.matKhau then
        some (.write (setPassword passwordHash), .login .hashed l c)
      else none
    | some _, none => none
  | .login .hashed l c => some (.write (revokeSessions (fun _ => true) c), .login .revoked l c)
  | .login .revoked l c =>
    match sees (.session l.token) with
    | none => some (.write (createSession l.token l.absoluteExpiresAt l.idleTimeoutSeconds c), .login .inserted l c)
    | some _ => none
  | .link .begun l _ =>
    match sees .account with
    | some account => if account.active || !l.activeOnly then some (.lock .account, .link .locked l now) else none
    | none => none
  | .link .locked l c => some (.write (invalidateTokens c), .link .invalidated l c)
  | .link .invalidated l c =>
    match sees (.token l.token) with
    | none => some (.write (createToken l.token (c + l.ttlSeconds)), .link .inserted l c)
    | some _ => none
  | .redeem .begun r c =>
    match sees (.token r.token) with
    | some row => if row.redeemable c then some (.read, .redeem .found r c) else none
    | none => none
  | .redeem .found r c =>
    match sees .account with
    | some account => if account.active then some (.lock .account, .redeem .locked r c) else none
    | none => none
  | .redeem .locked r _ =>
    match sees (.token r.token) with
    | some row => if row.redeemable now then some (.lock (.token r.token), .redeem .selected r now) else none
    | none => none
  | .redeem .selected r c =>
    match sees (.token r.token) with
    | some row => if row.redeemable c then some (.write (consumeToken r.token c), .redeem .consumed r c) else none
    | none => none
  | .redeem .consumed r c =>
    match sees .account with
    | some account => if account.active then some (.write (setPassword r.passwordHash), .redeem .hashed r c) else none
    | none => none
  | .redeem .hashed r c => some (.write (revokeSessions (fun _ => true) c), .redeem .revoked r c)
  | .redeem .revoked r c => some (.write (invalidateTokens c), .redeem .invalidated r c)
  | .cleanup false c => some (.write (deleteTokens c), .cleanup true c)
  | .revoke false picks c => some (.write (revokeSessions picks c), .revoke true picks c)
  | .touch none token user timeout c =>
    some (.write (extendSession token (idleExpiry user timeout c) c), .touch (some (match sees (.session token) with
        | some row => row.revokedAt = none
        | none => false)) token user timeout c)
  | _ => none

/-- A process whose last statement has run commits: the event others see, and what the process goes on
with. -/
def Task.finish {ι : Type} : Task → Option (Option (Event ι) × Task)
  | .login .inserted l _ => some (some (.opened l.token l.expectedPasswordHash l.replacementPasswordHash), .idle)
  | .link .inserted l _ => some (some (.issued l.token), .idle)
  | .redeem .invalidated r _ => some (some (.redeemed r.token r.passwordHash), .idle)
  | .cleanup true _ => some (none, .idle)
  | .revoke true _ _ => some (none, .idle)
  | .touch (some met) token user timeout c =>
    some (if met then some (.extended token) else none, .check token (user.touched timeout c))
  | _ => none

/-- What a process goes on with after its transaction is rolled back: `touch_session` gives up quietly. -/
def Task.aborted : Task → Task
  | .touch _ token user _ _ => .check token user
  | _ => .idle

def Task.Starts (now : ℕ) : Task → Prop
  | .login .begun _ c => c = now
  | .link .begun _ c => c = now
  | .redeem .begun _ c => c = now
  | .cleanup false c => c = now
  | .revoke false _ c => c = now
  | _ => False

section History

variable {ι : Type}

def Event.password : Event ι → Option String
  | .opened _ _ replacement => replacement
  | .redeemed _ passwordHash => some passwordHash
  | _ => none

/-- The hashes the account has had, the latest first; `first` is the one it started with. -/
def passwords (first : String) (history : List (Event ι)) : List String :=
  history.filterMap Event.password ++ [first]

/-- `secrets.token_urlsafe` draws a link that was never issued, and `hash_password` salts: a new hash is
none the account has had. -/
def Event.Fresh (first : String) (history : List (Event ι)) (e : Event ι) : Prop :=
  (∀ token, e = .issued token → .issued token ∉ history) ∧
    ∀ passwordHash, e.password = some passwordHash → passwordHash ∉ passwords first history

end History

structure World (ι : Type) where
  tables : Tables ι Row
  task : ι → Task
  clock : ℕ
  history : List (Event ι)

section Step

variable {ι : Type} [DecidableEq ι]

def World.goOn (w : World ι) (tables : Tables ι Row) (i : ι) (t : Task) (e : Option (Event ι)) : World ι where
  tables := tables
  task := Function.update w.task i t
  clock := w.clock
  history := e.toList ++ w.history

/-- One step, with the event others see. `touchSeconds` is `SESSION_ACTIVITY_TOUCH_SECONDS`. -/
inductive Step (touchSeconds : ℕ) (first : String) (w : World ι) : Option (Event ι) → World ι → Prop where
  | advance (seconds : ℕ) : Step touchSeconds first w none { w with clock := w.clock + seconds }
  | start (i : ι) (t : Task) : w.task i = .idle → t.Starts w.clock → Step touchSeconds first w none (w.goOn w.tables i t none)
  | statement (i : ι) (request : Request Row) (t : Task) :
      (w.task i).next (w.tables.view i) w.clock = some (request, t) → w.tables.Ready i request →
      Step touchSeconds first w none (w.goOn (w.tables.exec i request) i t none)
  | commit (i : ι) (e : Option (Event ι)) (t : Task) : (w.task i).finish = some (e, t) →
      (∀ x, e = some x → x.Fresh first w.history) → Step touchSeconds first w e (w.goOn (w.tables.commit i) i t e)
  | abort (i : ι) : (∀ token user, w.task i ≠ .check token user) →
      Step touchSeconds first w none (w.goOn (w.tables.abort i) i (w.task i).aborted none)
  | load (i : ι) (token : String) (account : AccountRow) (row : SessionRow) : w.task i = .idle →
      w.tables.committed .account = some account → w.tables.committed (.session token) = some row →
      Step touchSeconds first w (some (.loaded i token))
        (w.goOn w.tables i (.check token ⟨account.active, row⟩) (some (.loaded i token)))
  | touch (i : ι) (token : String) (user : SessionUser) (idleTimeoutSeconds : ℕ) :
      w.task i = .check token user → sessionInvalidReason user w.clock = none →
      user.session.lastSeenAt + touchSeconds ≤ w.clock → Step touchSeconds first w none
        (w.goOn w.tables i (.touch none token user idleTimeoutSeconds w.clock) none)
  | reject (i : ι) (token : String) (user : SessionUser) (reason : InvalidReason) :
      w.task i = .check token user → sessionInvalidReason user w.clock = some reason →
      Step touchSeconds first w (some (.found token reason)) (w.goOn w.tables i .idle (some (.found token reason)))
  | accept (i : ι) (token : String) (user : SessionUser) :
      w.task i = .check token user → sessionInvalidReason user w.clock = none →
      Step touchSeconds first w (some (.accepted i token)) (w.goOn w.tables i .idle (some (.accepted i token)))

/-- An account with no session and no link, and no process running. -/
def World.start (account : AccountRow) (clock : ℕ) : World ι where
  tables :=
    { committed := fun
        | .account => some account
        | .session _ => none
        | .token _ => none
      written := fun _ _ => none
      locked := fun _ => none }
  task := fun _ => .idle
  clock := clock
  history := []

/-- The worlds reached by steps that meet a condition on the world before and the event. -/
inductive Reached (touchSeconds : ℕ) (account : AccountRow) (clock : ℕ)
    (P : World ι → Option (Event ι) → Prop) : World ι → Prop where
  | start : Reached touchSeconds account clock P (.start account clock)
  | step {w w' : World ι} {e : Option (Event ι)} : Reached touchSeconds account clock P w →
      Step touchSeconds account.matKhau w e w' → P w e → Reached touchSeconds account clock P w'

end Step

end Bidding.Auth
