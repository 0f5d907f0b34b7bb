import Bidding.Foundations.Fallible
import Bidding.Procurement.Session
import Mathlib.Data.List.ReduceOption

/-!
# An import session commits each revision once and in order

From what a transaction can do (`World.Effect`) follow the invariant of the manifest and its cursor (`InOrder`) and the
fence around the decisions (`Fenced`): no decisions are bound while an enrichment may still replace the bundle.
-/

namespace Bidding.Procurement

open Foundations List Option

/-! ## What a commit does -/

def Context.Own (context : Context) : Prop := ∀ row ∈ context.plans, row.source = context.source

/-- The token of a commit is that of the plan row its last plan record was written as; a commit of
packages alone has none. -/
def OwnToken (number : String) (plan : Option PlanToken) (context : Context) (plans : List PlanRow) : Prop :=
  match context.plans.getLast? with
  | none => plan = none
  | some record => record.source.revisionNumber = number ∧
      ∃ row ∈ plans, row.id = record.id ∧ plan = some (row.token number)

def Session.afterCommit (s : Session) (revision : ManifestRevision) (plan : Option PlanToken) : Session :=
  { s with
    revisions := s.revisions.set s.currentIndex
      { revision with committed := true, committedPlan := plan.or revision.committedPlan }
    currentIndex := s.currentIndex + 1
    status := if s.revisions.length ≤ s.currentIndex + 1 then .completed else .waitingNextConfirmation }

/-- The commit of the current revision, with the history it leaves. -/
inductive CommitStep : Session × List Event → Session × List Event → Prop where
  | next (s : Session) (history : List Event) (revision : ManifestRevision) (plan : Option PlanToken)
      (context : Context) (plans : List PlanRow) (hstatus : s.status = .ready ∨ s.status = .waitingNextConfirmation)
      (hcurrent : s.revisions[s.currentIndex]? = some revision) (htoken : OwnToken revision.revisionNumber plan context plans) :
      CommitStep (s, history) (s.afterCommit revision plan,
        .committed s.currentIndex revision.revisionNumber plan context plans :: history)

def Commits : Session × List Event → Session × List Event → Prop := Relation.ReflTransGen CommitStep

variable {payload : Payload} {context : Context}

theorem own_of_sessionRecords (h : sessionRecords payload = .ok (some context)) : context.Own := by
  unfold sessionRecords at h
  simp only at h
  split at h
  · cases h
  rename_i first rest hrecords
  split at h
  · rename_i hall
    cases h
    intro row hrow
    have hmem : row ∈ first :: rest := hrecords ▸ mem_append_left _ hrow
    rcases mem_cons.mp hmem with rfl | hrest
    · rfl
    · exact of_decide_eq_true (all_eq_true.mp hall row hrest)
  · cases h

theorem status_of_loadTrustedRevision {s : Session} {commit : Commit}
    {revision : CanonicalRevision} (h : s.loadTrustedRevision commit context = .ok revision) :
    s.status = .ready ∨ s.status = .waitingNextConfirmation := by
  obtain ⟨-, -, h⟩ := bind_ok h
  obtain ⟨_, hauthority, _⟩ := bind_ok h
  unfold Session.validateAuthority at hauthority
  split at hauthority
  · cases hauthority
  split at hauthority
  · cases hauthority
  · rename_i hno
    by_contra hstatus
    exact hno (.inl (not_or.mp hstatus))

variable {allowHistorical : Bool}

theorem loadCommittedPlanToken_spec {s : Session} {commit : Commit} {planId number : String} {token : PlanToken}
    (h : s.loadCommittedPlanToken commit planId number allowHistorical = .ok token) :
    ∃ row ∈ commit.plans, row.id = planId ∧ token = row.token number := by
  unfold Session.loadCommittedPlanToken at h
  split at h
  · cases h
  rename_i row hfind
  cases h
  have hrow := find?_some hfind
  simp only [Bool.and_eq_true, decide_eq_true_eq] at hrow
  exact ⟨row, mem_of_find?_eq_some hfind, hrow.1.1.1, rfl⟩

variable {s s' : Session} {plan : Option PlanToken}

theorem markRevisionCommitted_spec {number : String}
    {marked : Bool} (h : s.markRevisionCommitted number plan = .ok (s', marked)) :
    (marked = false ∧ s' = s) ∨ (marked = true ∧ ∃ revision,
      s.revisions[s.currentIndex]? = some revision ∧ revision.revisionNumber = number ∧
      s' = s.afterCommit revision plan) := by
  unfold Session.markRevisionCommitted at h
  split at h
  · cases h
  rename_i index hfind
  split at h
  · cases h
  split at h
  · cases h
  rename_i revision hrevision
  split at h
  · split at h
    · cases h
    · cases h
      exact .inl ⟨rfl, rfl⟩
  · split at h
    · cases h
    rename_i hcurrent
    obtain rfl : index = s.currentIndex := not_not.mp hcurrent
    cases h
    refine .inr ⟨rfl, revision, hrevision, ?_, rfl⟩
    obtain ⟨hlt, hnumber, -⟩ := findIdx?_eq_some_iff_getElem.mp hfind
    rw [getElem?_eq_getElem hlt] at hrevision
    cases hrevision
    exact of_decide_eq_true hnumber

theorem ownToken_of_committedPlan {s : Session} {commit : Commit} (hown : context.Own)
    (h : s.committedPlan commit context allowHistorical = .ok plan) :
    OwnToken context.source.revisionNumber plan context commit.plans := by
  unfold Session.committedPlan at h
  unfold OwnToken
  cases hlast : context.plans.getLast? with
  | none =>
    rw [hlast] at h
    cases h
    rfl
  | some record =>
    rw [hlast] at h
    simp only at h
    split at h
    · cases h
    rename_i token htoken
    cases h
    obtain ⟨row, hrow, hid, rfl⟩ := loadCommittedPlanToken_spec htoken
    have hsource := hown record (mem_of_getLast? hlast)
    exact ⟨by rw [hsource], row, hrow, hid, rfl⟩

variable {commit : Commit} {events : List Event}

theorem commits_persistProvenance (hown : context.Own)
    (h : s.persistProvenance commit context allowHistorical = .ok (s', events))
    (history : List Event) : Commits (s, history) (s', events ++ history) := by
  obtain ⟨revision, hload, h⟩ := bind_ok h
  obtain ⟨plan, hplan, h⟩ := bind_ok h
  obtain ⟨⟨after, marked⟩, hmark, h⟩ := bind_ok h
  have htoken := ownToken_of_committedPlan hown hplan
  cases h
  rcases markRevisionCommitted_spec hmark with ⟨rfl, rfl⟩ | ⟨rfl, current, hcurrent, hnumber, rfl⟩
  · exact .refl
  rw [← hnumber] at htoken
  have hstep := CommitStep.next s history current plan context commit.plans
    (status_of_loadTrustedRevision hload) hcurrent htoken
  rw [hnumber] at hstep
  exact .single hstep

theorem commits_commitRevision (h : s.commitRevision commit payload = .ok (s', events))
    (history : List Event) : Commits (s, history) (s', events ++ history) := by
  obtain ⟨found, hcontext, h⟩ := bind_ok h
  cases found with
  | none =>
    cases h
    exact .refl
  | some context =>
    obtain ⟨-, -, h⟩ := bind_ok h
    split at h
    · exact commits_persistProvenance (own_of_sessionRecords hcontext) h history
    · cases h

theorem own_of_mapM {payloads : List Payload} {found : List (Option Context)}
    (h : payloads.mapM sessionRecords = .ok found) : ∀ context, some context ∈ found → context.Own := by
  induction payloads generalizing found with
  | nil =>
    cases h
    simp
  | cons payload rest ih =>
    rw [mapM_cons] at h
    obtain ⟨first, hfirst, h⟩ := bind_ok h
    obtain ⟨others, hothers, h⟩ := bind_ok h
    cases h
    intro context hmem
    rcases mem_cons.mp hmem with hhead | htail
    · exact own_of_sessionRecords (hhead ▸ hfirst)
    · exact ih hothers context htail

theorem commits_persistAll {contexts : List Context} (hown : ∀ context ∈ contexts, context.Own) {s : Session}
    (h : Session.persistAll commit contexts s = .ok (s', events)) (history : List Event) :
    Commits (s, history) (s', events ++ history) := by
  induction contexts generalizing s events history with
  | nil =>
    cases h
    exact .refl
  | cons context rest ih =>
    obtain ⟨⟨middle, first⟩, hfirst, h⟩ := bind_ok h
    obtain ⟨⟨last, others⟩, hothers, h⟩ := bind_ok h
    cases h
    have hstart := commits_persistProvenance (hown context mem_cons_self) hfirst history
    have hrest := ih (fun c hc => hown c (mem_cons_of_mem _ hc)) hothers (first ++ history)
    rw [append_assoc]
    exact hstart.trans hrest

theorem commits_commitDraft (h : s.commitDraft commit payload = .ok (s', events))
    (history : List Event) : Commits (s, history) (s', events ++ history) := by
  obtain ⟨contexts, hcontexts, h⟩ := bind_ok h
  obtain ⟨-, -, h⟩ := bind_ok h
  obtain ⟨payloads, -, hcontexts⟩ := bind_ok hcontexts
  obtain ⟨found, hfound, hcontexts⟩ := bind_ok hcontexts
  cases hcontexts
  refine commits_persistAll (fun context hmem => ?_) h history
  exact own_of_mapM hfound context (reduceOption_mem_iff.mp hmem)

/-! ## What a transaction does -/

def World.Enriching (w : World) : Prop :=
  match w.operation with
  | none => w.enrichmentContext = true
  | some op => op.status = .pending ∨ op.status = .running

def Session.bound (s : Session) (authority : DecisionAuthority) : Session :=
  { s with canonicalBundle := { s.canonicalBundle with decisionAuthority := some authority } }

def Session.enriched (s : Session) (refreshed : Refreshed) : Session :=
  { s with
    bundleDigest := refreshed.digest
    canonicalBundle :=
      { revisions := refreshed.revisions
        enrichmentStatus := some (if refreshed.failedNotices then .incomplete else .completed)
        decisionAuthority := none } }

/-- What a transaction can do. -/
inductive World.Effect (w : World) : World → Prop where
  | nothing : Effect w w
  | commits (s s' : Session) (history : List Event) (hsession : w.session = some s)
      (hcommits : Commits (s, w.history) (s', history)) : Effect w { w with session := some s', history := history }
  | binds (s : Session) (authority : DecisionAuthority) (hsession : w.session = some s)
      (henriched : s.canonicalBundle.enrichmentStatus ≠ some .pending)
      (hfree : ∀ existing, s.canonicalBundle.decisionAuthority = some existing → existing.status ≠ "BOUND") :
      Effect w { w with session := some (s.bound authority) }
  | cancels (s : Session) (hsession : w.session = some s) :
      Effect w { w with session := some { s with status := .cancelled }
                        history := .cancelled :: w.history }
  | expires : Effect w { w with session := none }
  | operates (operation : Option Operation) (hover : World.Enriching { w with operation := operation } → w.Enriching) :
      Effect w { w with operation := operation }
  | enriches (s : Session) (refreshed : Refreshed) (operation : Option Operation)
      (hsession : w.session = some s) (henriching : w.Enriching) (hover : ¬ World.Enriching { w with operation := operation }) :
      Effect w { w with session := some (s.enriched refreshed), operation := operation }

variable {w w' : World} {bundleDigest : String} {authority : DecisionAuthority}

theorem effect_commit {f : Session → Except String (Session × List Event)}
    (hf : ∀ s s' events history, f s = .ok (s', events) → Commits (s, history) (s', events ++ history))
    (h : w.commit f = .ok w') : w.Effect w' := by
  unfold World.commit at h
  cases hsession : w.session with
  | none => simp [hsession] at h
  | some s =>
    rw [hsession] at h
    obtain ⟨⟨s', events⟩, hdone, h⟩ := bind_ok h
    cases h
    exact .commits s s' _ hsession (hf s s' events w.history hdone)

theorem session_of_getScoped {userId workspaceLease : String} {s : Session}
    (h : w.getScoped userId workspaceLease = .ok s) : w.session = some s := by
  unfold World.getScoped at h
  split at h
  · cases h
  rename_i hsession
  split at h
  · cases h
  · cases h
    exact hsession

theorem effect_bindAuthority {s : Session} (hsession : w.session = some s)
    (henriched : s.canonicalBundle.enrichmentStatus ≠ some .pending)
    (h : w.bindAuthority s bundleDigest authority = .ok w') : w.Effect w' := by
  unfold World.bindAuthority at h
  simp only at h
  split at h
  · cases h
  split at h
  · rename_i hnone
    split at h
    · cases h
    · cases h
      exact .binds s authority hsession henriched (by simp [hnone])
  · rename_i existing hsome
    split at h
    · split at h
      · cases h
      · cases h
        exact .nothing
    · rename_i hbound
      split at h
      · cases h
      cases h
      refine .binds s authority hsession henriched ?_
      intro other hother
      rw [hsome] at hother
      cases hother
      exact hbound

variable {userId workspaceLease : String} {lease cursor now : ℕ}

theorem effect_bindDecisions {resolve : Bundle → List String → Except String DecisionAuthority}
    (h : w.bindDecisions userId workspaceLease now bundleDigest resolve = .ok w') : w.Effect w' := by
  obtain ⟨s, hscoped, h⟩ := bind_ok h
  split at h
  · cases h
  split at h
  · cases h
  split at h
  · cases h
  split at h
  · cases h
  · cases h
  rename_i hstatus
  obtain ⟨authority, -, h⟩ := bind_ok h
  refine effect_bindAuthority (session_of_getScoped hscoped) ?_ h
  intro hpending
  rw [hpending] at hstatus
  cases hstatus

theorem effect_cancel (h : w.cancel userId workspaceLease = .ok w') : w.Effect w' := by
  obtain ⟨s, hscoped, h⟩ := bind_ok h
  split at h
  · cases h
    exact .cancels s (session_of_getScoped hscoped)
  · cases h
    exact .nothing

theorem effect_cleanup (w : World) (now : ℕ) : w.Effect (w.cleanup now) := by
  unfold World.cleanup
  cases hsession : w.session with
  | none =>
    have hsame : ({ w with session := none } : World) = w := by rw [← hsession]
    rw [filter_none, hsame]
    exact .nothing
  | some s =>
    by_cases hlive : now < s.expiresAt
    · have hsame : ({ w with session := some s } : World) = w := by rw [← hsession]
      rw [filter_some, if_pos (by simpa using hlive), hsame]
      exact .nothing
    · rw [filter_some, if_neg (by simpa using hlive)]
      exact .expires

theorem effect_createOperation (w : World) (now : ℕ) : w.Effect (w.createOperation now) := by
  unfold World.createOperation
  split
  · refine .operates _ fun _ => ?_
    rename_i hcontext hafter
    unfold World.Enriching at hafter ⊢
    cases hop : w.operation with
    | none => exact hcontext
    | some op => simpa [hop] using hafter
  · exact .nothing

theorem effect_claim (w : World) (now staleAfter : ℕ) : w.Effect (w.claim now staleAfter) := by
  refine .operates _ fun hafter => ?_
  unfold World.Enriching at hafter ⊢
  cases hop : w.operation with
  | none => simpa [hop] using hafter
  | some op =>
    simp only [hop, map_some] at hafter ⊢
    split at hafter
    · rename_i hclaim
      rcases hclaim with hpending | ⟨hrunning, -⟩
      · exact .inl hpending
      · exact .inr hrunning
    · exact hafter

theorem effect_failEnrichment (w : World) (lease : Option ℕ) (now : ℕ) : w.Effect (w.failEnrichment lease now) := by
  refine .operates _ fun hafter => ?_
  unfold World.Enriching at hafter ⊢
  cases hop : w.operation with
  | none => simpa [hop] using hafter
  | some op =>
    simp only [hop, map_some] at hafter ⊢
    split at hafter
    · simp at hafter
    · exact hafter

theorem updateOperation_spec {status : OperationStatus} (h : w.updateOperation status lease cursor now = .ok w') :
    w.Enriching ∧ w' = { w with operation := some ⟨status, cursor, now⟩ } := by
  unfold World.updateOperation at h
  split at h
  · cases h
  rename_i op hop
  split at h
  · rename_i hheld
    cases h
    refine ⟨?_, rfl⟩
    simp only [World.Enriching, hop]
    exact .inr hheld.2.1
  · cases h

theorem effect_recordProgress (h : w.updateOperation .running lease cursor now = .ok w') : w.Effect w' := by
  obtain ⟨henriching, rfl⟩ := updateOperation_spec h
  exact .operates _ fun _ => henriching

theorem effect_finishEnrichment {refreshed : Refreshed}
    (h : w.finishEnrichment userId workspaceLease refreshed lease cursor now = .ok w') : w.Effect w' := by
  unfold World.finishEnrichment World.updateCanonicalBundle at h
  simp only at h
  cases hsession : w.session with
  | none =>
    rw [hsession] at h
    obtain ⟨henriching, rfl⟩ := updateOperation_spec h
    exact .operates _ fun _ => henriching
  | some s =>
    simp only [hsession] at h
    split at h
    · obtain ⟨henriching, rfl⟩ := updateOperation_spec h
      refine .enriches s refreshed _ hsession henriching ?_
      cases refreshed.failedNotices <;> simp [World.Enriching]
    · obtain ⟨henriching, rfl⟩ := updateOperation_spec h
      exact .operates _ fun _ => henriching

/-- A transaction commits the current revisions, binds free decisions, enriches while it may, cancels, or does nothing. -/
theorem effect_run (w : World) (t : Transaction) : w.Effect (w.run t) := by
  unfold World.run
  cases hattempt : w.attempt t with
  | error e => exact .nothing
  | ok w' =>
    cases t with
    | commitRevision commit payload =>
      exact effect_commit (fun s s' events history h => commits_commitRevision h history) hattempt
    | commitDraft commit payload =>
      exact effect_commit (fun s s' events history h => commits_commitDraft h history) hattempt
    | bindDecisions userId workspaceLease now bundleDigest resolve => exact effect_bindDecisions hattempt
    | cancel userId workspaceLease => exact effect_cancel hattempt
    | cleanup now =>
      cases hattempt
      exact effect_cleanup w now
    | createOperation now =>
      cases hattempt
      exact effect_createOperation w now
    | claim now staleAfter =>
      cases hattempt
      exact effect_claim w now staleAfter
    | recordProgress lease cursor now => exact effect_recordProgress hattempt
    | finishEnrichment userId workspaceLease refreshed lease cursor now => exact effect_finishEnrichment hattempt
    | failEnrichment lease now =>
      cases hattempt
      exact effect_failEnrichment w lease now

/-! ## The manifest and its cursor -/

def Event.index : Event → Option ℕ
  | .committed index _ _ _ _ => some index
  | .cancelled => none

def Event.Justified (manifest : List (String × String)) : Event → Prop
  | .committed index number plan context plans =>
      (∃ revisionId, manifest[index]? = some (revisionId, number)) ∧
        OwnToken number plan context plans
  | .cancelled => True

/-- A session has committed exactly the revisions before its cursor, with the tokens in the history. -/
structure Session.InOrder (manifest : List (String × String)) (s : Session) (history : List Event) : Prop where
  /-- the manifest is the one the session was made with -/
  manifest : s.revisions.map (fun r => (r.revisionId, r.revisionNumber)) = manifest
  /-- as many revisions were committed as the cursor says -/
  cursor : (history.filterMap Event.index).length = s.currentIndex
  /-- the committed revisions are those before the cursor -/
  before : ∀ (i : ℕ) (r : ManifestRevision), s.revisions[i]? = some r → (r.committed = true ↔ i < s.currentIndex)
  /-- a committed revision has the token of its commit -/
  token : ∀ (i : ℕ) (r : ManifestRevision), s.revisions[i]? = some r → if i < s.currentIndex then
      ∃ context plans, .committed i r.revisionNumber r.committedPlan context plans ∈ history
    else r.committedPlan = none
  /-- a cancelled session stays cancelled -/
  cancelled : .cancelled ∈ history → s.status = .cancelled

/-- Revisions were committed in the order of the manifest, each once, with the tokens of their own
rows, and none after a cancellation. -/
structure InOrder (manifest : List (String × String)) (w : World) : Prop where
  /-- the first commit was of the first revision, and each later one of the next -/
  order : (w.history.filterMap Event.index).reverse = List.range (w.history.filterMap Event.index).length
  justified : ∀ e ∈ w.history, e.Justified manifest
  /-- what came after a cancellation is no commit -/
  cancelled : w.history.Pairwise fun later earlier => earlier = .cancelled → later.index = none
  session : ∀ s, w.session = some s → s.InOrder manifest w.history

theorem inOrder_prepared (prepared : Prepared) : InOrder prepared.manifest prepared.world where
  order := rfl
  justified := by simp [Prepared.world]
  cancelled := .nil
  session s hs := by
    cases hs
    constructor
    · simp [Function.comp_def]
    · rfl
    · intro i r hr
      obtain ⟨e, -, rfl⟩ := mem_map.mp (mem_of_getElem? hr)
      simp
    · intro i r hr
      obtain ⟨e, -, rfl⟩ := mem_map.mp (mem_of_getElem? hr)
      simp
    · simp [Prepared.world]

/-- What a session and a history must satisfy for the next commit. -/
structure Ordered (manifest : List (String × String)) (s : Session) (history : List Event) : Prop where
  order : (history.filterMap Event.index).reverse = List.range (history.filterMap Event.index).length
  justified : ∀ e ∈ history, e.Justified manifest
  cancelled : history.Pairwise fun later earlier => earlier = .cancelled → later.index = none
  session : s.InOrder manifest history

theorem getElem?_afterCommit {s : Session} {current : ManifestRevision}
    (hcurrent : s.revisions[s.currentIndex]? = some current) (i : ℕ) :
    (s.afterCommit current plan).revisions[i]? = if i = s.currentIndex then
        some { current with committed := true, committedPlan := plan.or current.committedPlan }
      else s.revisions[i]? := by
  have hlt : s.currentIndex < s.revisions.length := (List.getElem?_eq_some_iff.mp hcurrent).1
  by_cases hi : i = s.currentIndex
  · subst hi
    simp [Session.afterCommit, hlt]
  · rw [if_neg hi]
    exact getElem?_set_ne (Ne.symm hi)

variable {manifest : List (String × String)} {history history' : List Event}

/-- A commit keeps the history in the order of the manifest. -/
theorem Ordered.commitStep {s : Session} (h : Ordered manifest s history)
    (hstep : CommitStep (s, history) (s', history')) : Ordered manifest s' history' := by
  cases hstep with
  | next _ _ current plan context plans hstatus hcurrent htoken =>
    have hnumber : manifest[s.currentIndex]? = some (current.revisionId, current.revisionNumber) := by
      rw [← h.session.manifest, getElem?_map, hcurrent]
      rfl
    have hnever : Event.cancelled ∉ history := by
      intro hmem
      have hcancelled := h.session.cancelled hmem
      rcases hstatus with hstatus | hstatus <;> simp [hcancelled] at hstatus
    have hnone : current.committedPlan = none := by simpa using h.session.token s.currentIndex current hcurrent
    constructor
    · simp only [filterMap_cons, Event.index, reverse_cons, length_cons, h.order,
        range_succ, h.session.cursor]
    · intro e he
      rcases mem_cons.mp he with rfl | he
      · exact ⟨⟨_, hnumber⟩, htoken⟩
      · exact h.justified e he
    · refine pairwise_cons.mpr ⟨?_, h.cancelled⟩
      rintro e he rfl
      exact absurd he hnever
    · constructor
      · rw [← h.session.manifest]
        apply ext_getElem?
        intro i
        rw [getElem?_map, getElem?_map, getElem?_afterCommit hcurrent]
        split
        · rename_i hi
          rw [hi, hcurrent]
          rfl
        · rfl
      · simp only [filterMap_cons, Event.index, length_cons, h.session.cursor]
        rfl
      · intro i r hr
        rw [getElem?_afterCommit hcurrent] at hr
        show r.committed = true ↔ i < s.currentIndex + 1
        split at hr
        · rename_i hi
          cases hr
          simp [hi]
        · rename_i hi
          rw [h.session.before i r hr]
          omega
      · intro i r hr
        rw [getElem?_afterCommit hcurrent] at hr
        show if i < s.currentIndex + 1 then _ else _
        split at hr
        · rename_i hi
          cases hr
          rw [if_pos (by omega), hi]
          exact ⟨context, plans, by simp [hnone]⟩
        · rename_i hi
          have hold := h.session.token i r hr
          by_cases hlt : i < s.currentIndex
          · rw [if_pos hlt] at hold
            obtain ⟨context', plans', hmem⟩ := hold
            rw [if_pos (by omega)]
            exact ⟨context', plans', mem_cons_of_mem _ hmem⟩
          · rw [if_neg hlt] at hold
            rw [if_neg (by omega)]
            exact hold
      · intro hmem
        rcases mem_cons.mp hmem with heq | hmem
        · cases heq
        · exact absurd hmem hnever

theorem Ordered.commits {s : Session} (h : Ordered manifest s history)
    (hcommits : Commits (s, history) (s', history')) : Ordered manifest s' history' := by
  have hrun : ∀ p, Commits (s, history) p → Ordered manifest p.1 p.2 := by
    intro p hp
    induction hp with
    | refl => exact h
    | tail _ hstep ih => exact ih.commitStep hstep
  exact hrun (s', history') hcommits

/-- No transaction breaks the order of the revisions, their tokens, or a cancellation. -/
theorem InOrder.effect (h : InOrder manifest w) (heffect : w.Effect w') : InOrder manifest w' := by
  cases heffect with
  | nothing => exact h
  | commits s s' history hsession hcommits =>
    have hordered : Ordered manifest s w.history := ⟨h.order, h.justified, h.cancelled, h.session s hsession⟩
    obtain ⟨horder, hjustified, hcancelled, hafter⟩ := hordered.commits hcommits
    refine ⟨horder, hjustified, hcancelled, fun other hother => ?_⟩
    cases hother
    exact hafter
  | binds s authority hsession henriched hfree =>
    refine ⟨h.order, h.justified, h.cancelled, fun other hother => ?_⟩
    cases hother
    obtain ⟨hmanifest, hcursor, hprefix, htoken, hcancelled⟩ := h.session s hsession
    exact ⟨hmanifest, hcursor, hprefix, htoken, hcancelled⟩
  | cancels s hsession =>
    have hkept := h.session s hsession
    refine ⟨h.order, ?_, ?_, fun other hother => ?_⟩
    · intro e he
      rcases mem_cons.mp he with rfl | he
      · exact trivial
      · exact h.justified e he
    · exact pairwise_cons.mpr ⟨fun _ _ _ => rfl, h.cancelled⟩
    · cases hother
      refine ⟨hkept.manifest, hkept.cursor, hkept.before, fun i r hr => ?_, fun _ => rfl⟩
      have hold := hkept.token i r hr
      split at hold
      · rename_i hlt
        obtain ⟨context, plans, hmem⟩ := hold
        rw [if_pos hlt]
        exact ⟨context, plans, mem_cons_of_mem _ hmem⟩
      · rename_i hlt
        rw [if_neg hlt]
        exact hold
  | expires => exact ⟨h.order, h.justified, h.cancelled, by simp⟩
  | operates operation hover => exact ⟨h.order, h.justified, h.cancelled, h.session⟩
  | enriches s refreshed operation hsession henriching hover =>
    refine ⟨h.order, h.justified, h.cancelled, fun other hother => ?_⟩
    cases hother
    obtain ⟨hmanifest, hcursor, hprefix, htoken, hcancelled⟩ := h.session s hsession
    exact ⟨hmanifest, hcursor, hprefix, htoken, hcancelled⟩

def Fenced (w : World) : Prop := w.Enriching → ∀ s, w.session = some s →
  s.canonicalBundle.enrichmentStatus = some .pending ∧ s.canonicalBundle.decisionAuthority = none

theorem fenced_prepared (prepared : Prepared) : Fenced prepared.world := by
  intro henriching s hs
  cases hs
  obtain ⟨hquick, hlinked⟩ := (Bool.and_eq_true _ _).mp henriching
  simp [hquick, hlinked]

theorem canonicalBundle_of_commits {s : Session}
    (h : Commits (s, history) (s', history')) : s'.canonicalBundle = s.canonicalBundle := by
  have hrun : ∀ p, Commits (s, history) p → p.1.canonicalBundle = s.canonicalBundle := by
    intro p hp
    induction hp with
    | refl => rfl
    | tail _ hstep ih =>
      cases hstep
      exact ih
  exact hrun (s', history') h

/-- While the enrichment is under way the bundle is pending, without decisions. -/
theorem Fenced.effect (h : Fenced w) (heffect : w.Effect w') : Fenced w' := by
  cases heffect with
  | nothing => exact h
  | commits s s' history hsession hcommits =>
    intro henriching other hother
    cases hother
    rw [canonicalBundle_of_commits hcommits]
    exact h henriching s hsession
  | binds s authority hsession henriched hfree =>
    intro henriching
    exact absurd (h henriching s hsession).1 henriched
  | cancels s hsession =>
    intro henriching other hother
    cases hother
    exact h henriching s hsession
  | expires => exact fun _ s hs => by cases hs
  | operates operation hover => exact fun henriching => h (hover henriching)
  | enriches s refreshed operation hsession henriching hover =>
    exact fun hafter => absurd hafter hover

def Decided (authority : DecisionAuthority) (w : World) : Prop := ∀ s, w.session = some s →
  s.canonicalBundle.decisionAuthority = some authority

/-- Bound decisions are neither changed nor lost. -/
theorem Decided.effect (hbound : authority.status = "BOUND")
    (h : Decided authority w) (hfenced : Fenced w) (heffect : w.Effect w') : Decided authority w' := by
  cases heffect with
  | nothing => exact h
  | commits s s' history hsession hcommits =>
    intro other hother
    cases hother
    rw [canonicalBundle_of_commits hcommits]
    exact h s hsession
  | binds s other hsession henriched hfree => exact absurd hbound (hfree authority (h s hsession))
  | cancels s hsession =>
    intro other hother
    cases hother
    exact h s hsession
  | expires => exact fun s hs => by cases hs
  | operates operation hover => exact h
  | enriches s refreshed operation hsession henriching hover =>
    have hnone := (hfenced henriching s hsession).2
    rw [h s hsession] at hnone
    cases hnone

def Later : World → World → Prop := Relation.ReflTransGen fun w w' => ∃ t, w' = w.run t

theorem Later.inOrder (hlater : Later w w') (h : InOrder manifest w) : InOrder manifest w' := by
  induction hlater with
  | refl => exact h
  | tail _ hstep ih =>
    obtain ⟨t, rfl⟩ := hstep
    exact ih.effect (effect_run _ t)

theorem Later.fenced (hlater : Later w w') (h : Fenced w) : Fenced w' := by
  induction hlater with
  | refl => exact h
  | tail _ hstep ih =>
    obtain ⟨t, rfl⟩ := hstep
    exact ih.effect (effect_run _ t)

theorem Later.decided (hbound : authority.status = "BOUND")
    (hlater : Later w w') (hfenced : Fenced w) (h : Decided authority w) : Decided authority w' := by
  induction hlater with
  | refl => exact h
  | tail hbefore hstep ih =>
    obtain ⟨t, rfl⟩ := hstep
    exact ih.effect hbound (Later.fenced hbefore hfenced) (effect_run _ t)

/-- A session no commit is accepted for. -/
def World.Closed (w : World) : Prop := ∀ s, w.session = some s → s.status ≠ .ready ∧ s.status ≠ .waitingNextConfirmation

theorem World.Closed.effect (h : w.Closed) (heffect : w.Effect w') :
    w'.Closed ∧ w'.history.filterMap Event.index = w.history.filterMap Event.index := by
  cases heffect with
  | nothing | operates => exact ⟨h, rfl⟩
  | commits s s' history hsession hcommits =>
    rcases hcommits.cases_head with heq | ⟨_, hstep, _⟩
    · cases heq
      exact ⟨fun _ hs => Option.some.inj hs ▸ h s hsession, rfl⟩
    · cases hstep with
      | next _ _ _ _ _ _ hstatus => exact (hstatus.elim (h s hsession).1 (h s hsession).2).elim
  | binds s _ hsession | enriches s _ _ hsession =>
    exact ⟨fun _ hs => Option.some.inj hs ▸ h s hsession, rfl⟩
  | cancels s hsession => exact ⟨fun _ hs => Option.some.inj hs ▸ ⟨nofun, nofun⟩, rfl⟩
  | expires => exact ⟨nofun, rfl⟩

/-- After an accepted cancellation no transaction commits a revision: the session stays as it is, or is gone. -/
theorem committed_after_cancel (h : w.cancel userId workspaceLease = .ok w') (hlater : Later w' w'') :
    w''.history.filterMap Event.index = w.history.filterMap Event.index := by
  have hcancelled : w'.Closed ∧ w'.history.filterMap Event.index = w.history.filterMap Event.index := by
    obtain ⟨s, hscoped, h⟩ := bind_ok h
    split at h
    · cases h
      exact ⟨fun _ hs => Option.some.inj hs ▸ ⟨nofun, nofun⟩, rfl⟩
    rename_i hnot
    cases h
    rw [not_or, not_or] at hnot
    refine ⟨fun other hother => ?_, rfl⟩
    rw [session_of_getScoped hscoped] at hother
    exact Option.some.inj hother ▸ ⟨hnot.1, hnot.2.2⟩
  suffices hrun : w''.Closed ∧ w''.history.filterMap Event.index = w.history.filterMap Event.index from hrun.2
  induction hlater with
  | refl => exact hcancelled
  | tail _ hstep ih =>
    obtain ⟨t, rfl⟩ := hstep
    have hafter := ih.1.effect (effect_run _ t)
    exact ⟨hafter.1, hafter.2.trans ih.2⟩

/-- After any transactions of any tabs and workers, the revisions of a session were committed in the
order of its manifest, each once, with the tokens of their own rows and none after a cancellation;
decisions that are bound then are the session's decisions for as long as it exists, and once a
cancellation is accepted no later transaction commits a revision. -/
theorem import_session_in_order (prepared : Prepared) (w : World) (hw : Later prepared.world w) : InOrder prepared.manifest w ∧
    (∀ s authority, w.session = some s → s.canonicalBundle.decisionAuthority = some authority →
      authority.status = "BOUND" → ∀ w', Later w w' → Decided authority w') ∧
    ∀ userId workspaceLease w', w.cancel userId workspaceLease = .ok w' → ∀ w'', Later w' w'' →
      w''.history.filterMap Event.index = w.history.filterMap Event.index := by
  refine ⟨hw.inOrder (inOrder_prepared prepared), ?_, fun _ _ _ hcancel _ => committed_after_cancel hcancel⟩
  intro s authority hsession hauthority hbound w' hlater
  refine hlater.decided hbound (hw.fenced (fenced_prepared prepared)) ?_
  intro other hother
  rw [hsession] at hother
  cases hother
  exact hauthority

def samplePrepared : Prepared :=
  { id := "s", userId := "u", workspaceLease := "l", provider := "MUASAMCONG", kind := "PLAN"
    familyNo := "PL1", bundleDigest := "d", manifest := [("r0", "00"), ("r1", "01")]
    revisions := [⟨"r0", "00", "d0"⟩, ⟨"r1", "01", "d1"⟩], quickEnrichment := true, linked := true
    expiresAt := 100 }

def sampleRecord (id number : String) : SourceRecord := ⟨id, "s", number, "MUASAMCONG", "PL1", "l"⟩

def sampleCommit : Commit :=
  { userId := "u", now := 1, plans := [⟨"p0", "p0", "PL1", 1, 0, true, false⟩, ⟨"p1", "p0", "PL1", 1, 1, true, false⟩]
    upper := id, recordsTrusted := fun _ _ => true, predecessorValid := fun _ _ => true }

def sampleDraft : Transaction := .commitDraft sampleCommit ⟨[sampleRecord "p1" "01"], []⟩

/-- The linked notices are read, the decisions are bound, and the first revision is committed. -/
def sampleWorld : World :=
  ((((samplePrepared.world.run (.createOperation 0)).run (.claim 0 5)).run
    (.finishEnrichment "u" "l" ⟨[⟨"r0", "00", "e0"⟩, ⟨"r1", "01", "e1"⟩], false, "e"⟩ 0 0 1)).run
    (.bindDecisions "u" "l" 1 "e" fun _ _ => .ok ⟨"BOUND", "x", "i", []⟩)).run
    (.commitRevision sampleCommit ⟨[sampleRecord "p0" "00"], []⟩)

/-- The rest is committed as a draft, or refused where the session is cancelled first. -/
theorem import_session_in_order_sample : (sampleWorld.run sampleDraft).session.map Session.currentIndex = some 2 ∧
    (sampleWorld.run (.cancel "u" "l")).session.map Session.status = some .cancelled ∧
    ∀ w ∈ [sampleWorld.run sampleDraft, (sampleWorld.run (.cancel "u" "l")).run sampleDraft],
      InOrder samplePrepared.manifest w ∧ (∀ s authority, w.session = some s →
        s.canonicalBundle.decisionAuthority = some authority → authority.status = "BOUND" →
        ∀ w', Later w w' → Decided authority w') ∧
      ∀ userId workspaceLease w', w.cancel userId workspaceLease = .ok w' → ∀ w'', Later w' w'' →
        w''.history.filterMap Event.index = w.history.filterMap Event.index := by
  have hw : Later samplePrepared.world sampleWorld :=
    .tail (.tail (.tail (.tail (.tail .refl ⟨_, rfl⟩) ⟨_, rfl⟩) ⟨_, rfl⟩) ⟨_, rfl⟩) ⟨_, rfl⟩
  refine ⟨by decide +kernel, by decide +kernel, fun w hmem => ?_⟩
  rcases mem_pair.mp hmem with rfl | rfl
  · exact import_session_in_order samplePrepared _ (hw.tail ⟨_, rfl⟩)
  · exact import_session_in_order samplePrepared _ ((hw.tail ⟨_, rfl⟩).tail ⟨_, rfl⟩)

end Bidding.Procurement
