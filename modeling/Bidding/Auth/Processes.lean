import Bidding.Auth.Sessions
import Bidding.Foundations.History

/-!
# What a process knows of the account

Whoever changes sessions or links of an account, but for touches, revocations and the clean-up, holds the row of the
account throughout. What a process knows (`Local.next`) is not lost to the steps of the others (`Local.frame`).
-/

namespace Bidding.Auth

open Foundations Option Tables

variable {ι : Type}

def latestLink : List (Event ι) → Option String
  | [] => none
  | .issued token :: _ => some token
  | .redeemed _ _ :: _ => none
  | _ :: history => latestLink history

def Event.isRedeemed : Event ι → Bool
  | .redeemed _ _ => true
  | _ => false

def Event.isLink : Event ι → Bool
  | .issued _ => true
  | .redeemed _ _ => true
  | _ => false

def sinceRedeemed (history : List (Event ι)) : List (Event ι) := history.takeWhile fun e => !e.isRedeemed

def FoundOver (token : String) (history : List (Event ι)) : Prop :=
  ∃ reason, reason ≠ .accountInactive ∧ .found token reason ∈ history

/-- What justifies an event by those before it. -/
def Event.Justified (first : String) (e : Event ι) (before : List (Event ι)) : Prop :=
  e.Fresh first before ∧ match e with
  | .opened token expected _ => (∀ x p, .opened token x p ∉ before) ∧
      ∀ passwordHash, expected = some passwordHash → (passwords first before).head? = some passwordHash
  | .redeemed token _ => latestLink before = some token
  | .accepted i token => ∃ mid early, before = mid ++ .loaded i token :: early ∧
      (∀ t, .loaded i t ∉ mid) ∧ ¬ FoundOver token early ∧ ∃ x p, .opened token x p ∈ sinceRedeemed early
  | _ => True

def Task.holdsAccount : Task → Bool
  | .login .begun _ _ => false
  | .login _ _ _ => true
  | .link .begun _ _ => false
  | .link _ _ _ => true
  | .redeem .begun _ _ => false
  | .redeem .found _ _ => false
  | .redeem _ _ _ => true
  | _ => false

def Task.resting : Task → Bool
  | .idle => true
  | .check _ _ => true
  | _ => false

def Task.passwordHash : Task → Option String
  | .login .hashed l _ => l.replacementPasswordHash
  | .login .revoked l _ => l.replacementPasswordHash
  | .login .inserted l _ => l.replacementPasswordHash
  | .redeem .hashed r _ => some r.passwordHash
  | .redeem .revoked r _ => some r.passwordHash
  | .redeem .invalidated r _ => some r.passwordHash
  | _ => none

def Task.extends (token : String) : Task → Prop
  | .touch (some true) token' _ _ _ => token' = token
  | _ => False

def Carried (r r' : SessionRow) : Prop :=
  r'.absoluteExpiresAt = r.absoluteExpiresAt ∧ (r.revokedAt.isSome = true → r'.revokedAt.isSome = true)

def SessionRow.Dead (r : SessionRow) (now : ℕ) : Prop :=
  r.revokedAt.isSome = true ∨ r.absoluteExpiresAt ≤ now ∨ r.idleExpiresAt ≤ now

/-- A check has loaded the session, and knows no more than what was committed then. -/
structure Checking (w : World ι) (i : ι) (token : String) (session : SessionRow) (dead : Prop) : Prop where
  row : ∃ r, w.tables.committed (.session token) = some r ∧ Carried session r
  load : ∃ mid early, w.history = mid ++ .loaded i token :: early ∧ (∀ t, .loaded i t ∉ mid) ∧
    (FoundOver token early → dead) ∧
    (session.revokedAt = none → ∃ x p, .opened token x p ∈ sinceRedeemed early)

def AllRevoked (w : World ι) (i : ι) (but : Option String) : Prop :=
  ∀ token r, w.tables.view i (.session token) = some r → but = some token ∨ r.revokedAt.isSome = true

def AllUsed (w : World ι) (i : ι) (but : Option String) : Prop :=
  ∀ token r, w.tables.view i (.token token) = some r → but = some token ∨ r.usedAt ≠ none

def Admitted (w : World ι) (l : Login) : Prop :=
  ∃ account, w.tables.committed .account = some account ∧ l.admits account = true

/-- What a process knows after its statements so far. -/
def Phase (w : World ι) (i : ι) : Task → Prop
  | .login .locked l _ => Admitted w l
  | .login .hashed l _ => Admitted w l
  | .login .revoked l _ => Admitted w l ∧ AllRevoked w i none
  | .login .inserted l _ => Admitted w l ∧ AllRevoked w i (some l.token) ∧
      w.tables.committed (.session l.token) = none ∧ ∃ row, w.tables.written i (.session l.token) = some (some row)
  | .link .invalidated _ _ => AllUsed w i none
  | .link .inserted l _ => AllUsed w i (some l.token)
  | .redeem .selected r _ => latestLink w.history = some r.token
  | .redeem .consumed r _ => latestLink w.history = some r.token
  | .redeem .hashed r _ => latestLink w.history = some r.token
  | .redeem .revoked r _ => latestLink w.history = some r.token ∧ AllRevoked w i none
  | .redeem .invalidated r _ => latestLink w.history = some r.token ∧ AllRevoked w i none ∧ AllUsed w i none
  | .check token user => Checking w i token user.session (user.session.Dead w.clock)
  | .touch _ token user _ _ => Checking w i token user.session False
  | _ => True

def SessionWrite (w : World ι) (t : Task) (token : String) (v : Option SessionRow) : Prop :=
  (∃ r r', w.tables.committed (.session token) = some r ∧ v = some r' ∧ Carried r r' ∧
    (r'.idleExpiresAt = r.idleExpiresAt ∨ t.extends token)) ∨
  ∃ l c, t = .login .inserted l c ∧ token = l.token

/-- What holds of one process. -/
structure Local (w : World ι) (i : ι) (t : Task) : Prop where
  owns : t.holdsAccount = true → w.tables.locked .account = some i
  resting : t.resting = true → ∀ k, w.tables.written i k = none
  accountWritten : w.tables.written i .account ≠ none → t.holdsAccount = true
  account : w.tables.view i .account = (w.tables.committed .account).map fun account : AccountRow =>
    { account with matKhau := t.passwordHash.getD account.matKhau }
  sessions : ∀ token v, w.tables.written i (.session token) = some v → SessionWrite w t token v
  tokens : ∀ token r, w.tables.written i (.token token) = some (some r) →
    r.usedAt ≠ none ∨ ∃ l c, t = .link .inserted l c ∧ token = l.token
  phase : Phase w i t

/-- What holds of the committed rows and the history. -/
structure Settled (first : String) (w : World ι) : Prop where
  account : ∃ account, w.tables.committed .account = some account ∧
    (passwords first w.history).head? = some account.matKhau
  one : ∀ token token' r r', w.tables.committed (.session token) = some r →
    w.tables.committed (.session token') = some r' → r.revokedAt = none → r'.revokedAt = none → token = token'
  opened : ∀ token r, w.tables.committed (.session token) = some r → r.revokedAt = none →
    ∃ x p, .opened token x p ∈ sinceRedeemed w.history
  absent : ∀ token, w.tables.committed (.session token) = none → ∀ x p, .opened token x p ∉ w.history
  links : ∀ token r, w.tables.committed (.token token) = some r → r.usedAt = none → latestLink w.history = some token
  dead : ∀ token, FoundOver token w.history → ∃ r, w.tables.committed (.session token) = some r ∧ r.Dead w.clock
  history : Each (Event.Justified first) w.history

/-- The invariant of every run. -/
structure Sound (first : String) (w : World ι) : Prop where
  locking : w.tables.Locking
  processes : ∀ i, Local w i (w.task i)
  settled : Settled first w

/-- What a step of another process may change, as far as one process can tell. -/
structure Frame (w w' : World ι) (i : ι) : Prop where
  written : ∀ k, w'.tables.written i k = w.tables.written i k
  locked : ∀ k, w.tables.locked k = some i → w'.tables.locked k = some i
  held : ∀ k, w.tables.locked k = some i → w'.tables.committed k = w.tables.committed k
  carried : ∀ token r, w.tables.committed (.session token) = some r →
    ∃ r', w'.tables.committed (.session token) = some r' ∧ Carried r r'
  sessions : w.tables.locked .account = some i → ∀ token, w.tables.committed (.session token) = none →
    w'.tables.committed (.session token) = none
  tokens : w.tables.locked .account = some i → ∀ token r, w'.tables.committed (.token token) = some r →
    r.usedAt ≠ none ∨ w.tables.committed (.token token) = some r
  links : w.tables.locked .account = some i → latestLink w'.history = latestLink w.history
  history : ∃ new, w'.history = new ++ w.history ∧ ∀ t, .loaded i t ∉ new
  clock : w.clock ≤ w'.clock

/-! ## Steps of other processes -/

theorem Carried.refl (r : SessionRow) : Carried r r := ⟨rfl, id⟩

theorem Carried.trans {r r' r'' : SessionRow} (h : Carried r r') (h' : Carried r' r'') : Carried r r'' :=
  ⟨h'.1.trans h.1, fun hr => h'.2 (h.2 hr)⟩

theorem SessionRow.Dead.mono {r : SessionRow} {now now' : ℕ} (h : r.Dead now) (hle : now ≤ now') : r.Dead now' := by
  rcases h with h | h | h
  · exact .inl h
  · exact .inr (.inl (Nat.le_trans h hle))
  · exact .inr (.inr (Nat.le_trans h hle))

theorem passwordHash_eq_none {t : Task} (h : t.holdsAccount = false) : t.passwordHash = none := by
  cases t with
  | login phase l c => cases phase <;> first | rfl | cases h
  | redeem phase r c => cases phase <;> first | rfl | cases h
  | _ => rfl

section Frame

variable {w w' : World ι} {i : ι} {t : Task} {k : Key} {but : Option String}

theorem Frame.written_eq (hl : w.tables.Locking) (hf : Frame w w' i)
    (h : w.tables.written i k ≠ none) : w'.tables.committed k = w.tables.committed k :=
  hf.held k (hl i k h)

section

variable (hf : Frame w w' i)
include hf

theorem Frame.view_of_written (h : w.tables.written i k ≠ none) : w'.tables.view i k = w.tables.view i k := by
  obtain ⟨v, hv⟩ := ne_none_iff_exists'.mp h
  rw [view, view, hf.written, hv, getD_some, getD_some]

theorem Frame.view_of_not_written (h : w.tables.written i k = none) :
    w.tables.view i k = w.tables.committed k ∧ w'.tables.view i k = w'.tables.committed k := by
  refine ⟨Tables.view_of_not_written h, Tables.view_of_not_written ?_⟩
  rw [hf.written, h]

section

variable (hlocked : w.tables.locked .account = some i)
include hlocked

theorem AllRevoked.frame (h : AllRevoked w i but) : AllRevoked w' i but := by
  intro token r hr
  by_cases hwritten : w.tables.written i (.session token) = none
  · obtain ⟨hbefore, hafter⟩ := hf.view_of_not_written hwritten
    rw [hafter] at hr
    cases hold : w.tables.committed (.session token) with
    | none =>
      rw [hf.sessions hlocked token hold] at hr
      cases hr
    | some old =>
      obtain ⟨r', hr', hcarried⟩ := hf.carried token old hold
      obtain rfl := mem_unique hr hr'
      exact (h token old (hbefore.trans hold)).imp_right hcarried.2
  · rw [hf.view_of_written hwritten] at hr
    exact h token r hr

theorem AllUsed.frame (h : AllUsed w i but) : AllUsed w' i but := by
  intro token r hr
  by_cases hwritten : w.tables.written i (.token token) = none
  · obtain ⟨hbefore, hafter⟩ := hf.view_of_not_written hwritten
    rw [hafter] at hr
    rcases hf.tokens hlocked token r hr with hused | hold
    · exact .inr hused
    · exact h token r (hbefore.trans hold)
  · rw [hf.view_of_written hwritten] at hr
    exact h token r hr

theorem Admitted.frame {l : Login} (h : Admitted w l) : Admitted w' l := by
  obtain ⟨account, haccount, hadmits⟩ := h
  exact ⟨account, (hf.held _ hlocked).trans haccount, hadmits⟩

end

theorem Checking.frame {token : String} {session : SessionRow} {dead dead' : Prop}
    (hdead : dead → dead') (h : Checking w i token session dead) : Checking w' i token session dead' := by
  obtain ⟨⟨r, hr, hcarried⟩, mid, early, hhistory, hmid, hover, hopened⟩ := h
  obtain ⟨r', hr', hcarried'⟩ := hf.carried token r hr
  obtain ⟨new, hnew, hloaded⟩ := hf.history
  refine ⟨⟨r', hr', hcarried.trans hcarried'⟩, new ++ mid, early, ?_, ?_, fun ho => hdead (hover ho), hopened⟩
  · rw [hnew, hhistory, List.append_assoc]
  · intro t ht
    rcases List.mem_append.mp ht with ht | ht
    · exact hloaded t ht
    · exact hmid t ht

theorem Phase.frame (howns : t.holdsAccount = true → w.tables.locked .account = some i) (h : Phase w i t) : Phase w' i t := by
  cases t with
  | idle => trivial
  | login phase l c =>
    cases phase with
    | begun => trivial
    | locked => exact Admitted.frame hf (howns rfl) h
    | hashed => exact Admitted.frame hf (howns rfl) h
    | revoked => exact ⟨h.1.frame hf (howns rfl), h.2.frame hf (howns rfl)⟩
    | inserted =>
      obtain ⟨hadmitted, hrevoked, habsent, row, hrow⟩ := h
      exact ⟨hadmitted.frame hf (howns rfl), hrevoked.frame hf (howns rfl), hf.sessions (howns rfl) _ habsent,
        row, (hf.written _).trans hrow⟩
  | link phase l c =>
    cases phase with
    | begun => trivial
    | locked => trivial
    | invalidated => exact AllUsed.frame hf (howns rfl) h
    | inserted => exact AllUsed.frame hf (howns rfl) h
  | redeem phase r c =>
    cases phase with
    | begun => trivial
    | found => trivial
    | locked => trivial
    | selected => exact (hf.links (howns rfl)).trans h
    | consumed => exact (hf.links (howns rfl)).trans h
    | hashed => exact (hf.links (howns rfl)).trans h
    | revoked => exact ⟨(hf.links (howns rfl)).trans h.1, h.2.frame hf (howns rfl)⟩
    | invalidated => exact ⟨(hf.links (howns rfl)).trans h.1, h.2.1.frame hf (howns rfl), h.2.2.frame hf (howns rfl)⟩
  | cleanup deleted c => trivial
  | revoke done picks c => trivial
  | check token user => exact Checking.frame hf (fun hdead => hdead.mono hf.clock) h
  | touch extended token user timeout c => exact Checking.frame hf id h

end

/-- What a process knows is not lost to a step of another. -/
theorem Local.frame (hl : w.tables.Locking) (hf : Frame w w' i) (h : Local w i t) : Local w' i t where
  owns := fun hholds => hf.locked _ (h.owns hholds)
  resting := fun hrest k => (hf.written k).trans (h.resting hrest k)
  accountWritten := fun hwritten => h.accountWritten (by rwa [hf.written] at hwritten)
  account := by
    cases hholds : t.holdsAccount with
    | true =>
      have hcommitted := hf.held _ (h.owns hholds)
      have hview : w'.tables.view i .account = w.tables.view i .account := by
        rw [view, view, hf.written, hcommitted]
      rw [hview, hcommitted, h.account]
    | false =>
      have hnone : w.tables.written i .account = none := by
        by_contra hwritten
        rw [h.accountWritten hwritten] at hholds
        cases hholds
      rw [(hf.view_of_not_written hnone).2, passwordHash_eq_none hholds]
      cases w'.tables.committed .account <;> rfl
  sessions := by
    intro token v hv
    rw [hf.written] at hv
    have hcommitted := hf.written_eq hl (k := .session token) (by rw [hv]; exact some_ne_none v)
    rcases h.sessions token v hv with ⟨r, r', hr, hwrite⟩ | hinserted
    · exact .inl ⟨r, r', hcommitted.trans hr, hwrite⟩
    · exact .inr hinserted
  tokens := fun token r hr => h.tokens token r (by rwa [hf.written] at hr)
  phase := h.phase.frame hf h.owns

end Frame

/-! ## Statements of the process itself -/

def Task.wrote : Task → Bool
  | .login .inserted _ _ => true
  | .link .inserted _ _ => true
  | .touch (some _) _ _ _ _ => true
  | _ => false

section Statement

variable {first : String} {w : World ι} {i : ι} {t t' : Task} {request : Request Row} {statement : Statement Row}
  {token : String}
  {v : Option SessionRow}

theorem not_extends (h : t.wrote = false) : ¬ t.extends token := by
  cases t with
  | touch extended token' user timeout c =>
    cases extended with
    | none => exact id
    | some met => cases h
  | _ => exact id

theorem SessionWrite.of_not_wrote (hwrote : t.wrote = false)
    (h : SessionWrite w t token v) : ∃ r r', w.tables.committed (.session token) = some r ∧ v = some r' ∧
      Carried r r' ∧ r'.idleExpiresAt = r.idleExpiresAt := by
  rcases h with ⟨r, r', hr, hv, hcarried, hidle⟩ | ⟨l, c, rfl, -⟩
  · exact ⟨r, r', hr, hv, hcarried, hidle.resolve_right (not_extends hwrote)⟩
  · cases hwrote

theorem Local.sessionWrite_of_written (h : Local w i t) (hwrote : t.wrote = false) {v : Option SessionRow}
    (hv : w.tables.written i (.session token) = some v) : SessionWrite w t' token v := by
  obtain ⟨r, r', hr, hv', hcarried, hidle⟩ := (h.sessions token v hv).of_not_wrote hwrote
  exact .inl ⟨r, r', hr, hv', hcarried, .inl hidle⟩

theorem Local.used_of_written (h : Local w i t) (hwrote : t.wrote = false) {row : TokenRow}
    (hrow : w.tables.written i (.token token) = some (some row)) : row.usedAt ≠ none := by
  rcases h.tokens token row hrow with hused | ⟨l, c, rfl, -⟩
  · exact hused
  · cases hwrote

theorem Local.committed_of_view (h : Local w i t) (hwrote : t.wrote = false) {row : SessionRow}
    (hrow : w.tables.view i (.session token) = some row) :
    ∃ r, w.tables.committed (.session token) = some r ∧ Carried r row ∧ row.idleExpiresAt = r.idleExpiresAt := by
  cases hwritten : w.tables.written i (.session token) with
  | none => exact ⟨row, (view_of_not_written hwritten).symm.trans hrow, .refl row, rfl⟩
  | some v =>
    rw [view, hwritten, getD_some] at hrow
    obtain ⟨r, r', hr, rfl, hcarried, hidle⟩ := (h.sessions token v hwritten).of_not_wrote hwrote
    cases hrow
    exact ⟨r, hr, hcarried, hidle⟩

variable [DecidableEq ι] {c : ℕ} {row : TokenRow}

theorem Local.silent (h : Local w i t) (hwrote : t.wrote = false)
    (hwritten : ∀ k, (w.tables.exec i request).written i k = w.tables.written i k)
    (howns : t'.holdsAccount = true → (w.tables.exec i request).locked .account = some i)
    (hholds : t.holdsAccount = true → t'.holdsAccount = true) (hrest : t'.resting = false)
    (hhash : t'.passwordHash = t.passwordHash) (hphase : Phase (w.goOn (w.tables.exec i request) i t' none) i t') :
    Local (w.goOn (w.tables.exec i request) i t' none) i t' where
  owns := howns
  resting := fun hresting => absurd hresting (by rw [hrest]; exact Bool.false_ne_true)
  accountWritten := fun hne => hholds (h.accountWritten (by rwa [← hwritten]))
  account := by
    have hview : (w.tables.exec i request).view i .account = w.tables.view i .account := by
      rw [view, view, hwritten, committed_exec]
    show (w.tables.exec i request).view i .account = ((w.tables.exec i request).committed .account).map _
    rw [hview, committed_exec, h.account, hhash]
    rfl
  sessions := by
    intro token v hv
    obtain ⟨r, r', hr, hv', hcarried, hidle⟩ :=
      (h.sessions token v ((hwritten _).symm.trans hv)).of_not_wrote hwrote
    exact .inl ⟨r, r', by simpa [World.goOn] using hr, hv', hcarried, .inl hidle⟩
  tokens := by
    intro token r hr
    exact .inl (h.used_of_written hwrote ((hwritten _).symm.trans hr))
  phase := hphase

theorem Local.write (h : Local w i t) (hwrote : t.wrote = false)
    (hready : w.tables.Ready i (.write statement)) (hholds : t'.holdsAccount = t.holdsAccount)
    (hrest : t'.resting = false) (hhash : t'.passwordHash = t.passwordHash) (haccount : ∀ row, statement .account row = none)
    (hsessions : ∀ token v, statement (.session token) (w.tables.view i (.session token)) = some v → SessionWrite w t' token v)
    (htokens : ∀ token r, statement (.token token) (w.tables.view i (.token token)) = some (some r) →
      r.usedAt ≠ none ∨ ∃ l c, t' = .link .inserted l c ∧ token = l.token)
    (hphase : Phase (w.goOn (w.tables.exec i (.write statement)) i t' none) i t') :
    Local (w.goOn (w.tables.exec i (.write statement)) i t' none) i t' where
  owns := fun hheld => locked_exec hready (h.owns (hholds ▸ hheld))
  resting := fun hresting => absurd hresting (by rw [hrest]; exact Bool.false_ne_true)
  accountWritten := by
    intro hne
    change (w.tables.exec i (.write statement)).written i .account ≠ none at hne
    rw [written_exec_write, haccount, none_or] at hne
    exact hholds.trans (h.accountWritten hne)
  account := by
    show (w.tables.exec i (.write statement)).view i .account = _
    rw [view_exec_write, haccount, getD_none, h.account, hhash]
    rfl
  sessions := by
    intro token v hv
    change (w.tables.exec i (.write statement)).written i (.session token) = some v at hv
    rw [written_exec_write] at hv
    cases hnew : statement (.session token) (w.tables.view i (.session token)) with
    | some v' =>
      rw [hnew, some_or] at hv
      exact some.inj hv ▸ hsessions token v' hnew
    | none =>
      rw [hnew, none_or] at hv
      exact h.sessionWrite_of_written hwrote hv
  tokens := by
    intro token r hr
    change (w.tables.exec i (.write statement)).written i (.token token) = some (some r) at hr
    rw [written_exec_write] at hr
    cases hnew : statement (.token token) (w.tables.view i (.token token)) with
    | some v' =>
      rw [hnew, some_or] at hr
      exact htokens token r (hnew.trans hr)
    | none =>
      rw [hnew, none_or] at hr
      exact .inl (h.used_of_written hwrote hr)
  phase := hphase

theorem Local.setPassword (h : Local w i t) (hwrote : t.wrote = false) {passwordHash : String}
    (hready : w.tables.Ready i (.write (setPassword passwordHash))) (hheld : t.holdsAccount = true)
    (hholds : t'.holdsAccount = true) (hrest : t'.resting = false) (hhash : t'.passwordHash = some passwordHash)
    (hphase : Phase (w.goOn (w.tables.exec i (.write (Auth.setPassword passwordHash))) i t' none) i t') :
    Local (w.goOn (w.tables.exec i (.write (Auth.setPassword passwordHash))) i t' none) i t' where
  owns := fun _ => locked_exec hready (h.owns hheld)
  resting := fun hresting => absurd hresting (by rw [hrest]; exact Bool.false_ne_true)
  accountWritten := fun _ => hholds
  account := by
    show (w.tables.exec i (.write (Auth.setPassword passwordHash))).view i .account = _
    rw [view_exec_write, h.account, hhash]
    show Option.getD (Auth.setPassword passwordHash .account _) _ =
      (w.tables.committed .account).map fun account : AccountRow => { account with matKhau := passwordHash }
    cases w.tables.committed .account <;> rfl
  sessions := by
    intro token v hv
    change (w.tables.exec i (.write (Auth.setPassword passwordHash))).written i (.session token) = some v at hv
    rw [written_exec_write] at hv
    exact h.sessionWrite_of_written hwrote hv
  tokens := by
    intro token r hr
    change (w.tables.exec i (.write (Auth.setPassword passwordHash))).written i (.token token) = some (some r) at hr
    rw [written_exec_write] at hr
    exact .inl (h.used_of_written hwrote hr)
  phase := hphase

/-! ### What the statements write -/

omit [DecidableEq ι] in
theorem revokeSessions_spec (h : Local w i t) (hwrote : t.wrote = false) {picks : String → Bool}
    (hv : revokeSessions picks c (.session token) (w.tables.view i (.session token)) = some v) : SessionWrite w t' token v := by
  cases hrow : w.tables.view i (.session token) with
  | none =>
    rw [hrow] at hv
    cases hv
  | some row =>
    rw [hrow] at hv
    change (if picks token then some (some _) else none) = some v at hv
    split at hv
    · obtain ⟨r, hr, hcarried, hidle⟩ := h.committed_of_view hwrote hrow
      refine .inl ⟨r, _, hr, (some.inj hv).symm, ⟨hcarried.1, fun _ => ?_⟩, .inl hidle⟩
      cases row.revokedAt <;> rfl
    · cases hv

theorem allRevoked_revokeSessions (c : ℕ) :
    AllRevoked (w.goOn (w.tables.exec i (.write (revokeSessions (fun _ => true) c))) i t' none) i none := by
  intro token r hr
  change (w.tables.exec i (.write (revokeSessions (fun _ => true) c))).view i (.session token) = some r at hr
  rw [view_exec_write] at hr
  right
  cases hrow : w.tables.view i (.session token) with
  | none =>
    rw [hrow] at hr
    cases hr
  | some row =>
    rw [hrow] at hr
    cases hr
    cases SessionRow.revokedAt row <;> simp

theorem allUsed_invalidateTokens (c : ℕ) :
    AllUsed (w.goOn (w.tables.exec i (.write (invalidateTokens c))) i t' none) i none := by
  intro token r hr
  change (w.tables.exec i (.write (invalidateTokens c))).view i (.token token) = some r at hr
  rw [view_exec_write] at hr
  right
  cases hrow : w.tables.view i (.token token) with
  | none =>
    rw [hrow] at hr
    cases hr
  | some row =>
    rw [hrow] at hr
    change Option.getD (if TokenRow.usedAt row = none then _ else none) _ = _ at hr
    split at hr
    · cases hr
      simp
    · rename_i hused
      cases hr
      exact hused

theorem AllRevoked.exec (h : AllRevoked w i none) (hnone : ∀ token row, statement (.session token) row = none) :
    AllRevoked (w.goOn (w.tables.exec i (.write statement)) i t' none) i none := by
  intro token r hr
  change (w.tables.exec i (.write statement)).view i (.session token) = some r at hr
  rw [view_exec_write, hnone] at hr
  exact h token r hr

theorem invalidateTokens_used {row : Option TokenRow} {r : TokenRow}
    (hr : invalidateTokens c (.token token) row = some (some r)) : r.usedAt ≠ none := by
  cases row with
  | none => cases hr
  | some row =>
    change (if row.usedAt = none then some (some _) else none) = some (some r) at hr
    split at hr
    · obtain rfl := some.inj (some.inj hr)
      exact some_ne_none c
    · cases hr

theorem createSession_some {created : String} {absolute idle : ℕ} {row v : Option SessionRow}
    (h : createSession created absolute idle c (.session token) row = some v) : created = token := by
  cases row with
  | none => exact (ite_none_right_eq_some.mp h).1.symm
  | some row => cases h

theorem createToken_some {created : String} {expiresAt : ℕ} {row v : Option TokenRow}
    (h : createToken created expiresAt (.token token) row = some v) : created = token := by
  cases row with
  | none => exact (ite_none_right_eq_some.mp h).1.symm
  | some row => cases h

omit [DecidableEq ι] in
theorem Local.committed_account (h : Local w i t) {account : AccountRow} (hhash : t.passwordHash = none)
    (hsees : w.tables.view i .account = some account) : w.tables.committed .account = some account := by
  rw [h.account, hhash] at hsees
  obtain ⟨committed, hcommitted, rfl⟩ := map_eq_some_iff.mp hsees
  exact hcommitted

omit [DecidableEq ι] in
theorem Local.latestLink_of_view (h : Local w i t) (hsettled : Settled first w) (hwrote : t.wrote = false)
    (hrow : w.tables.view i (.token token) = some row) (hunused : row.usedAt = none) : latestLink w.history = some token := by
  cases hwritten : w.tables.written i (.token token) with
  | none => exact hsettled.links token row ((view_of_not_written hwritten).symm.trans hrow) hunused
  | some v =>
    rw [view, hwritten, getD_some] at hrow
    subst hrow
    exact absurd hunused (h.used_of_written hwrote hwritten)

theorem TokenRow.unused_of_redeemable (h : row.redeemable c = true) : row.usedAt = none := by
  simp only [TokenRow.redeemable, Bool.and_eq_true, decide_eq_true_eq] at h
  exact h.1

/-! ### The next statement -/

section Next

variable (h : Local w i t) (hnext : t.next (w.tables.view i) w.clock = some (request, t')) (hready : w.tables.Ready i request)
include h hnext hready

theorem Local.next_login {phase : LoginPhase} {l : Login} (ht : t = .login phase l c) :
    Local (w.goOn (w.tables.exec i request) i t' none) i t' := by
  subst ht
  cases phase with
  | begun =>
    simp only [Task.next] at hnext
    split at hnext
    · rename_i account hsees
      split at hnext
      · rename_i hadmits
        cases hnext
        exact h.silent rfl (fun _ => rfl) (fun _ => locked_exec_lock _) (fun _ => rfl) rfl rfl
          ⟨account, h.committed_account rfl hsees, hadmits⟩
      · cases hnext
    · cases hnext
  | locked =>
    simp only [Task.next] at hnext
    split at hnext
    · rename_i hreplacement
      cases hnext
      exact h.silent rfl (fun _ => rfl) (fun _ => h.owns rfl) id rfl hreplacement h.phase
    · rename_i hreplacement _
      split at hnext
      · cases hnext
        exact h.setPassword rfl hready rfl rfl rfl hreplacement h.phase
      · cases hnext
    · cases hnext
  | hashed =>
    cases hnext
    exact h.write rfl hready rfl rfl rfl (fun _ => rfl) (fun token v hv => revokeSessions_spec h rfl hv)
      (fun _ _ hr => nomatch hr) ⟨h.phase, allRevoked_revokeSessions c⟩
  | revoked =>
    simp only [Task.next] at hnext
    split at hnext
    · rename_i hsees
      cases hnext
      refine h.write rfl hready rfl rfl rfl (fun _ => rfl) (fun token v hv => ?_) (fun _ _ hr => nomatch hr)
        ⟨h.phase.1, fun token r hr => ?_, ?_, ?_⟩
      · exact .inr ⟨l, c, rfl, (createSession_some hv).symm⟩
      · change (w.tables.exec i (.write (createSession _ _ _ c))).view i (.session token) = some r at hr
        rw [view_exec_write] at hr
        cases hput : createSession l.token l.absoluteExpiresAt l.idleTimeoutSeconds c (.session token)
            (w.tables.view i (.session token)) with
        | none =>
          rw [hput, getD_none] at hr
          exact .inr ((h.phase.2 token r hr).resolve_left (by simp))
        | some v => exact .inl (congrArg some (createSession_some hput))
      · -- a session that is there is seen
        cases hcommitted : w.tables.committed (.session l.token) with
        | none => exact hcommitted
        | some row =>
          cases hwritten : w.tables.written i (.session l.token) with
          | none =>
            rw [view_of_not_written hwritten, hcommitted] at hsees
            cases hsees
          | some v =>
            obtain ⟨r, r', -, rfl, -⟩ := (h.sessions _ v hwritten).of_not_wrote rfl
            rw [view, hwritten] at hsees
            cases hsees
      · refine ⟨⟨c, min l.absoluteExpiresAt (c + max 60 l.idleTimeoutSeconds), l.absoluteExpiresAt, none⟩, ?_⟩
        show (w.tables.exec i (.write (createSession _ _ _ c))).written i (.session l.token) = _
        rw [written_exec_write, hsees]
        show Option.or (if l.token = l.token then _ else none) _ = _
        rw [if_pos rfl]
        rfl
    · cases hnext
  | inserted => cases hnext

theorem Local.next_link {phase : LinkPhase} {l : Link} (ht : t = .link phase l c) :
    Local (w.goOn (w.tables.exec i request) i t' none) i t' := by
  subst ht
  cases phase with
  | begun =>
    simp only [Task.next] at hnext
    split at hnext
    · split at hnext
      · cases hnext
        exact h.silent rfl (fun _ => rfl) (fun _ => locked_exec_lock _) (fun _ => rfl) rfl rfl trivial
      · cases hnext
    · cases hnext
  | locked =>
    cases hnext
    exact h.write rfl hready rfl rfl rfl (fun _ => rfl) (fun _ _ hv => nomatch hv)
      (fun _ _ hr => .inl (invalidateTokens_used hr)) (allUsed_invalidateTokens c)
  | invalidated =>
    simp only [Task.next] at hnext
    split at hnext
    · cases hnext
      refine h.write rfl hready rfl rfl rfl (fun _ => rfl) (fun _ _ hv => nomatch hv) (fun token r hr => ?_)
        (fun token r hr => ?_)
      · exact .inr ⟨l, c, rfl, (createToken_some hr).symm⟩
      · change (w.tables.exec i (.write (createToken _ _))).view i (.token token) = some r at hr
        rw [view_exec_write] at hr
        cases hput : createToken l.token (c + l.ttlSeconds) (.token token) (w.tables.view i (.token token)) with
        | none =>
          rw [hput, getD_none] at hr
          exact .inr ((h.phase token r hr).resolve_left (by simp))
        | some v => exact .inl (congrArg some (createToken_some hput))
    · cases hnext
  | inserted => cases hnext

theorem Local.next_redeem (hsettled : Settled first w) {phase : RedeemPhase} {r : Redemption} (ht : t = .redeem phase r c) :
    Local (w.goOn (w.tables.exec i request) i t' none) i t' := by
  subst ht
  cases phase with
  | begun =>
    simp only [Task.next] at hnext
    split at hnext
    · split at hnext
      · cases hnext
        exact h.silent rfl (fun _ => rfl) (fun hheld => nomatch hheld) (fun hheld => nomatch hheld) rfl rfl trivial
      · cases hnext
    · cases hnext
  | found =>
    simp only [Task.next] at hnext
    split at hnext
    · split at hnext
      · cases hnext
        exact h.silent rfl (fun _ => rfl) (fun _ => locked_exec_lock _) (fun _ => rfl) rfl rfl trivial
      · cases hnext
    · cases hnext
  | locked =>
    simp only [Task.next] at hnext
    split at hnext
    · rename_i row hrow
      split at hnext
      · rename_i hredeemable
        cases hnext
        exact h.silent rfl (fun _ => rfl) (fun _ => locked_exec hready (h.owns rfl)) id rfl rfl
          (h.latestLink_of_view hsettled rfl hrow (TokenRow.unused_of_redeemable hredeemable))
      · cases hnext
    · cases hnext
  | selected =>
    simp only [Task.next] at hnext
    split at hnext
    · split at hnext
      · cases hnext
        refine h.write rfl hready rfl rfl rfl (fun _ => rfl) (fun _ _ hv => nomatch hv) (fun token r' hr => ?_) h.phase
        cases hrow : w.tables.view i (.token token) with
        | none =>
          rw [hrow] at hr
          cases hr
        | some row =>
          rw [hrow] at hr
          change (if token = r.token then some (some _) else none) = some (some r') at hr
          split at hr
          · obtain rfl := some.inj (some.inj hr)
            exact .inl (some_ne_none c)
          · cases hr
      · cases hnext
    · cases hnext
  | consumed =>
    simp only [Task.next] at hnext
    split at hnext
    · split at hnext
      · cases hnext
        exact h.setPassword rfl hready rfl rfl rfl rfl h.phase
      · cases hnext
    · cases hnext
  | hashed =>
    cases hnext
    exact h.write rfl hready rfl rfl rfl (fun _ => rfl) (fun token v hv => revokeSessions_spec h rfl hv)
      (fun _ _ hr => nomatch hr) ⟨h.phase, allRevoked_revokeSessions c⟩
  | revoked =>
    cases hnext
    exact h.write rfl hready rfl rfl rfl (fun _ => rfl) (fun _ _ hv => nomatch hv)
      (fun _ _ hr => .inl (invalidateTokens_used hr)) ⟨h.phase.1, h.phase.2.exec fun _ _ => rfl, allUsed_invalidateTokens c⟩
  | invalidated => cases hnext

theorem Local.next_touch {extended : Option Bool} {user : SessionUser} {timeout c : ℕ}
    (ht : t = .touch extended token user timeout c) :
    Local (w.goOn (w.tables.exec i request) i t' none) i t' := by
  subst ht
  cases extended with
  | none =>
    cases hnext
    refine h.write rfl hready rfl rfl rfl (fun _ => rfl) (fun token' v hv => ?_) (fun _ _ hr => nomatch hr) ?_
    · cases hrow : w.tables.view i (.session token') with
      | none =>
        rw [hrow] at hv
        cases hv
      | some row =>
        rw [hrow] at hv
        change (if token' = token ∧ SessionRow.revokedAt row = none then some (some _) else none) = some v at hv
        split at hv
        · rename_i hmet
          obtain ⟨rfl, hrevoked⟩ := hmet
          obtain ⟨r, hr, hcarried, -⟩ := h.committed_of_view rfl hrow
          refine .inl ⟨r, _, hr, (some.inj hv).symm, hcarried, .inr ?_⟩
          rw [hrow]
          simp [Task.extends, hrevoked]
        · cases hv
    · exact ⟨h.phase.row, h.phase.load⟩
  | some met => cases hnext

/-- The next statement of a process carries on what it knows. -/
theorem Local.next (hsettled : Settled first w) :
    Local (w.goOn (w.tables.exec i request) i t' none) i t' := by
  cases t with
  | idle => cases hnext
  | check token user => cases hnext
  | login phase l c => exact h.next_login hnext hready rfl
  | link phase l c => exact h.next_link hnext hready rfl
  | redeem phase r c => exact h.next_redeem hnext hready hsettled rfl
  | cleanup deleted c =>
    cases deleted with
    | true => cases hnext
    | false =>
      cases hnext
      refine h.write rfl hready rfl rfl rfl (fun _ => rfl) (fun _ _ hv => nomatch hv) (fun token r hr => ?_) trivial
      cases hrow : w.tables.view i (.token token) with
      | none =>
        rw [hrow] at hr
        cases hr
      | some row =>
        rw [hrow] at hr
        change (if _ then some none else none) = some (some r) at hr
        split at hr <;> cases hr
  | revoke done picks c =>
    cases done with
    | true => cases hnext
    | false =>
      cases hnext
      exact h.write rfl hready rfl rfl rfl (fun _ => rfl) (fun token v hv => revokeSessions_spec h rfl hv)
        (fun _ _ hr => nomatch hr) trivial
  | touch extended token user timeout c => exact h.next_touch hnext hready rfl

end Next

end Statement

section Finish

variable {first : String} {w : World ι} {i j : ι} {t t' : Task}

theorem Local.view_session (h : Local w i t) {token : String} {r' : SessionRow}
    (hr' : w.tables.view i (.session token) = some r') : (∃ r, w.tables.committed (.session token) = some r ∧ Carried r r' ∧
      (r'.idleExpiresAt = r.idleExpiresAt ∨ t.extends token)) ∨ ∃ l c, t = .login .inserted l c ∧ token = l.token := by
  cases hwritten : w.tables.written i (.session token) with
  | none => exact .inl ⟨r', (view_of_not_written hwritten).symm.trans hr', .refl r', .inl rfl⟩
  | some v =>
    rw [view, hwritten, getD_some] at hr'
    subst hr'
    rcases h.sessions token _ hwritten with ⟨r, r'', hr, hv, hkept⟩ | hinserted
    · cases hv
      exact .inl ⟨r, hr, hkept⟩
    · exact .inr hinserted

theorem Local.exists_view (h : Local w i t) {token : String} {r : SessionRow}
    (hr : w.tables.committed (.session token) = some r) : ∃ r', w.tables.view i (.session token) = some r' ∧ Carried r r' := by
  cases hwritten : w.tables.written i (.session token) with
  | none => exact ⟨r, (view_of_not_written hwritten).trans hr, .refl r⟩
  | some v =>
    rcases h.sessions token v hwritten with ⟨r₀, r', hr₀, rfl, hcarried, -⟩ | ⟨l, c, rfl, rfl⟩
    · obtain rfl := mem_unique hr hr₀
      refine ⟨r', ?_, hcarried⟩
      rw [view, hwritten]
      rfl
    · rw [h.phase.2.2.1] at hr
      cases hr

theorem Local.view_token (h : Local w i t) {token : String} {r : TokenRow}
    (hr : w.tables.view i (.token token) = some r) : r.usedAt ≠ none ∨ w.tables.committed (.token token) = some r ∨
      ∃ l c, t = .link .inserted l c ∧ token = l.token := by
  cases hwritten : w.tables.written i (.token token) with
  | none => exact .inr (.inl ((view_of_not_written hwritten).symm.trans hr))
  | some v =>
    rw [view, hwritten, getD_some] at hr
    subst hr
    exact (h.tokens token r hwritten).imp_right .inr

theorem not_both_hold (h : Local w j t) (hheld : w.tables.locked .account = some i) (hne : i ≠ j) : t.holdsAccount = false := by
  by_contra hholds
  exact hne (some.inj (hheld.symm.trans (h.owns (by simpa using hholds))))

/-- What a process commits, and what it goes on with. -/
inductive Finishes : Task → Option (Event ι) → Task → Prop where
  | login (l : Login) (c : ℕ) : Finishes (.login .inserted l c)
      (some (.opened l.token l.expectedPasswordHash l.replacementPasswordHash)) .idle
  | link (l : Link) (c : ℕ) : Finishes (.link .inserted l c) (some (.issued l.token)) .idle
  | redeem (r : Redemption) (c : ℕ) : Finishes (.redeem .invalidated r c) (some (.redeemed r.token r.passwordHash)) .idle
  | cleanup (c : ℕ) : Finishes (.cleanup true c) none .idle
  | revoke (picks : String → Bool) (c : ℕ) : Finishes (.revoke true picks c) none .idle
  | extended (token : String) (user : SessionUser) (timeout c : ℕ) :
      Finishes (.touch (some true) token user timeout c) (some (.extended token)) (.check token (user.touched timeout c))
  | missed (token : String) (user : SessionUser) (timeout c : ℕ) :
      Finishes (.touch (some false) token user timeout c) none (.check token (user.touched timeout c))

theorem finishes_of_finish {e : Option (Event ι)} (hfinish : t.finish = some (e, t')) : Finishes t e t' := by
  unfold Task.finish at hfinish
  split at hfinish
  case h_6 extended token user timeout c => cases extended <;> (cases hfinish; constructor)
  case h_7 => cases hfinish
  all_goals
    cases hfinish
    constructor

variable {e : Option (Event ι)}

theorem Finishes.latestLink (h : Finishes t e t') (hholds : t.holdsAccount = false) (history : List (Event ι)) :
    latestLink (e.toList ++ history) = Auth.latestLink history := by
  cases h with
  | login l c => cases hholds
  | link l c => cases hholds
  | redeem r c => cases hholds
  | _ => rfl

theorem Finishes.not_loaded (h : Finishes t e t') (i : ι) (token : String) : .loaded i token ∉ e.toList := by
  cases h <;> simp

variable [DecidableEq ι]

theorem Frame.commit (hl : w.tables.Locking) (h : Local w j t) (hne : i ≠ j) (hfinish : Finishes t e t') :
    Frame w (w.goOn (w.tables.commit j) j t' e) i where
  written := fun k => written_commit_of_ne hne k
  locked := fun k hk => release_of_ne hne hk
  held := fun k hk => committed_commit_of_locked hl hk hne
  carried := fun token r hr => h.exists_view hr
  sessions := by
    intro hheld token hnone
    cases hview : w.tables.view j (.session token) with
    | none => exact hview
    | some r' =>
      rcases h.view_session hview with ⟨r, hr, -⟩ | ⟨l, c, rfl, -⟩
      · rw [hnone] at hr
        cases hr
      · cases not_both_hold h hheld hne
  tokens := by
    intro hheld token r hr
    rcases h.view_token hr with hused | hcommitted | ⟨l, c, rfl, -⟩
    · exact .inl hused
    · exact .inr hcommitted
    · cases not_both_hold h hheld hne
  links := fun hheld => hfinish.latestLink (not_both_hold h hheld hne) w.history
  history := ⟨e.toList, rfl, fun token => hfinish.not_loaded i token⟩
  clock := Nat.le_refl _

omit [DecidableEq ι] in
theorem Local.ended {w' : World ι} (hnone : ∀ k, w'.tables.written i k = none) (hholds : t.holdsAccount = false)
    (hphase : Phase w' i t) : Local w' i t where
  owns := fun hheld => by
    rw [hholds] at hheld
    cases hheld
  resting := fun _ => hnone
  accountWritten := fun hwritten => absurd (hnone _) hwritten
  account := by
    rw [view_of_not_written (hnone _), passwordHash_eq_none hholds]
    cases w'.tables.committed .account <;> rfl
  sessions := by
    intro token v hv
    rw [hnone] at hv
    cases hv
  tokens := by
    intro token v hv
    rw [hnone] at hv
    cases hv
  phase := hphase

/-- The own commit of a process keeps what it knows. -/
theorem Local.commit (h : Local w i t) (hfinish : Finishes t e t') : Local (w.goOn (w.tables.commit i) i t' e) i t' := by
  have hnone : ∀ k, (w.tables.commit i).written i k = none := fun k => written_commit_self k
  have hchecking : ∀ token user timeout c, t = .touch (some true) token user timeout c ∨
      t = .touch (some false) token user timeout c → Checking (w.goOn (w.tables.commit i) i t' e) i token
        (user.touched timeout c).session ((user.touched timeout c).session.Dead w.clock) := by
    intro token user timeout c ht
    have hphase : Checking w i token user.session False := by rcases ht with rfl | rfl <;> exact h.phase
    obtain ⟨⟨r, hr, hcarried⟩, mid, early, hhistory, hmid, hover, hopened⟩ := hphase
    obtain ⟨r', hr', hcarried'⟩ := h.exists_view hr
    refine ⟨⟨r', hr', hcarried.trans hcarried'⟩, e.toList ++ mid, early, ?_, ?_, fun ho => (hover ho).elim, hopened⟩
    · show e.toList ++ w.history = _
      rw [hhistory, List.append_assoc]
    · intro t ht
      rcases List.mem_append.mp ht with ht | ht
      · exact hfinish.not_loaded i t ht
      · exact hmid t ht
  apply Local.ended hnone
  · cases hfinish <;> rfl
  · cases hfinish with
    | extended token user timeout c => exact hchecking token user timeout c (.inl rfl)
    | missed token user timeout c => exact hchecking token user timeout c (.inr rfl)
    | _ => trivial

theorem Local.abort (h : Local w i t) (hcheck : ∀ token user, t ≠ .check token user) :
    Local (w.goOn (w.tables.abort i) i t.aborted none) i t.aborted := by
  apply Local.ended fun k => written_abort_self k
  · cases t <;> rfl
  · cases t with
    | touch extended token user timeout c =>
      obtain ⟨hrow, mid, early, hhistory, hmid, hover, hopened⟩ := h.phase
      exact ⟨hrow, mid, early, hhistory, hmid, fun ho => (hover ho).elim, hopened⟩
    | check token user => exact absurd rfl (hcheck token user)
    | _ => trivial

end Finish

end Bidding.Auth
