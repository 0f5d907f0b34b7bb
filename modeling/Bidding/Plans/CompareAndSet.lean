import Bidding.Plans.DraftSession

/-!
# Plan version drafts are compared and set

A save is accepted only on the stored revision, and only the object that was issued for a draft can store it where it is not
stored, once. So a draft that is removed does not come back, whether its tombstone is kept or not.
-/

namespace Bidding.Plans

open Foundations List Option

section Updates

variable {α : Type} {envelope envelope' : Envelope α} {session persisted : Session α} {issued : Bool} {draftId : ℕ}
  {stored : Session α}

theorem find_some (h : envelope.find draftId = some stored) : stored ∈ envelope.sessions ∧ stored.draftId = draftId :=
  ⟨mem_of_find?_eq_some h, by simpa using find?_some h⟩

theorem find_eq_none (h : ∀ stored ∈ envelope.sessions, stored.draftId ≠ draftId) : envelope.find draftId = none :=
  List.find?_eq_none.mpr fun stored hstored => by simpa using h stored hstored

theorem ids_replaceSession (sessions : List (Session α)) :
    (replaceSession session sessions).map Session.draftId = sessions.map Session.draftId := by
  induction sessions with
  | nil => rfl
  | cons stored rest ih =>
    rw [replaceSession]
    split
    · rename_i hid
      rw [map_cons, map_cons, hid]
    · rw [map_cons, map_cons, ih]

theorem find?_replaceSession {sessions : List (Session α)}
    (h : sessions.find? (fun s => s.draftId = session.draftId) = some stored) (draftId : ℕ) :
    (replaceSession session sessions).find? (fun s => s.draftId = draftId) = if draftId = session.draftId then some session
      else sessions.find? fun s => s.draftId = draftId := by
  induction sessions with
  | nil => exact absurd h (some_ne_none _).symm
  | cons first rest ih =>
    rw [replaceSession]
    by_cases hfirst : first.draftId = session.draftId
    · rw [if_pos hfirst, find?_cons, find?_cons, hfirst]
      by_cases hid : draftId = session.draftId
      · simp [hid]
      · have hid' : session.draftId ≠ draftId := fun heq => hid heq.symm
        simp [hid, hid']
    · rw [if_neg hfirst, find?_cons, find?_cons]
      rw [find?_cons] at h
      simp only [hfirst, decide_false] at h
      rw [ih h]
      by_cases hid : first.draftId = draftId
      · have hne : draftId ≠ session.draftId := fun heq => hfirst (hid.trans heq)
        simp [hid, hne]
      · simp [hid]

/-- What an accepted save has met, and what it leaves. -/
inductive Saved (envelope : Envelope α) (session : Session α) (issued : Bool) (envelope' : Envelope α)
    (persisted : Session α) : Prop
  | first (hnone : envelope.find session.draftId = none) (hrevision : session.revision = 0)
      (hissued : issued = true) (hpersisted : persisted = { session with revision := 1 })
      (hsessions : envelope'.sessions = envelope.sessions ++ [persisted])
  | next (stored : Session α) (hstored : envelope.find session.draftId = some stored)
      (hrevision : session.revision = stored.revision)
      (hpersisted : persisted = { session with revision := stored.revision + 1 })
      (hsessions : envelope'.sessions = replaceSession persisted envelope.sessions)

theorem saveUpdate_ok (h : saveUpdate envelope session issued = .ok (envelope', persisted)) :
    Saved envelope session issued envelope' persisted := by
  unfold saveUpdate at h
  split at h
  · exact nomatch h
  split at h
  · rename_i hnone
    split at h
    · exact nomatch h
    rename_i hrevision
    split at h
    · exact nomatch h
    · rename_i hissued
      obtain ⟨rfl, rfl⟩ := Prod.mk.inj (Except.ok.inj h)
      exact .first hnone (not_not.mp hrevision) (by simpa using hissued) rfl rfl
  · rename_i stored hstored
    split at h
    · exact nomatch h
    · rename_i hrevision
      obtain ⟨rfl, rfl⟩ := Prod.mk.inj (Except.ok.inj h)
      exact .next stored hstored (not_not.mp hrevision) rfl rfl

def Envelope.revision (envelope : Envelope α) (draftId : ℕ) : ℕ :=
  ((envelope.find draftId).map Session.revision).getD 0

theorem Saved.spec (h : Saved envelope session issued envelope' persisted) :
    session.revision = envelope.revision session.draftId ∧
      (∃ stored, envelope'.find session.draftId = some stored ∧ stored.content = session.content ∧
        stored.revision = envelope.revision session.draftId + 1) ∧
      ∀ draftId, draftId ≠ session.draftId → envelope'.find draftId = envelope.find draftId := by
  cases h with
  | first hnone hrevision hissued hpersisted hsessions =>
    have hzero : envelope.revision session.draftId = 0 := by
      rw [Envelope.revision, hnone]
      rfl
    have hfind : ∀ draftId, envelope'.find draftId = (envelope.find draftId).or
        (if session.draftId = draftId then some persisted else none) := fun draftId => by
      rw [Envelope.find, hsessions, find?_append, hpersisted]
      congr 1
      rw [find?_singleton]
      simp
    refine ⟨hrevision.trans hzero.symm, ⟨persisted, ?_, by rw [hpersisted], ?_⟩, fun draftId hne => ?_⟩
    · rw [hfind, hnone, if_pos rfl]
      rfl
    · rw [hzero, hpersisted]
    · rw [hfind, if_neg fun heq => hne heq.symm, or_none]
  | next stored hstored hrevision hpersisted hsessions =>
    have hid : persisted.draftId = session.draftId := by rw [hpersisted]
    have hold : envelope.revision session.draftId = stored.revision := by
      rw [Envelope.revision, hstored]
      rfl
    have hfind : ∀ draftId, envelope'.find draftId =
        if draftId = session.draftId then some persisted else envelope.find draftId := fun draftId => by
      rw [Envelope.find, hsessions, find?_replaceSession (by rw [hid]; exact hstored), hid]
      rfl
    refine ⟨hrevision.trans hold.symm, ⟨persisted, ?_, by rw [hpersisted], ?_⟩, fun draftId hne => ?_⟩
    · rw [hfind, if_pos rfl]
    · rw [hold, hpersisted]
    · rw [hfind, if_neg hne]

theorem saveUpdate_stale (hstored : envelope.find session.draftId = some stored)
    (hstale : session.revision < stored.revision) : ∃ refusal, saveUpdate envelope session issued = .error refusal := by
  cases hupdate : saveUpdate envelope session issued with
  | error refusal => exact ⟨refusal, rfl⟩
  | ok result =>
    obtain ⟨hrevision, -⟩ := (saveUpdate_ok hupdate).spec
    rw [Envelope.revision, hstored] at hrevision
    exact absurd hrevision (Nat.ne_of_lt hstale)

theorem removeUpdate_ok {expectedRevision : Option ℕ} {now : ℤ} {existed : Bool}
    (h : removeUpdate envelope draftId expectedRevision now = .ok (envelope', existed)) :
    (existed = false ∧ envelope'.sessions = envelope.sessions) ∨
      (existed = true ∧ (∃ stored ∈ envelope.sessions, stored.draftId = draftId) ∧
        envelope'.sessions = envelope.sessions.filter fun stored => stored.draftId ≠ draftId) := by
  unfold removeUpdate at h
  split at h
  · obtain ⟨rfl, rfl⟩ := Prod.mk.inj (Except.ok.inj h)
    exact .inl ⟨rfl, rfl⟩
  · rename_i stored hstored
    split at h
    · exact nomatch h
    · obtain ⟨rfl, rfl⟩ := Prod.mk.inj (Except.ok.inj h)
      exact .inr ⟨rfl, ⟨stored, find_some hstored⟩, rfl⟩

end Updates

section Runs

variable {κ α : Type} {start w w' : World κ α} {at' : ℕ} {after : After α} {task : Task α}
  {next : Option (κ × Task α)} {tab : κ}

def Issued (w : World κ α) (call draftId : ℕ) : Prop :=
  ∃ tab session after, w.calls call = some (tab, .save session true after) ∧ session.draftId = draftId

/-- No removed draft is stored, and an object that is still to be saved is the only one of a draft that is
neither stored nor removed. -/
structure Sound (w : World κ α) : Prop where
  stored : ∀ session ∈ w.envelope.sessions, session.draftId < w.nextId
  removed : ∀ draftId ∈ w.removed, draftId < w.nextId ∧
    ∀ session ∈ w.envelope.sessions, session.draftId ≠ draftId
  issued : ∀ call draftId, Issued w call draftId → draftId < w.nextId ∧ draftId ∉ w.removed ∧
    ∀ session ∈ w.envelope.sessions, session.draftId ≠ draftId
  unique : ∀ call call' draftId, Issued w call draftId → Issued w call' draftId → call = call'

/-- No call is under way, and no draft was removed. -/
structure Start (w : World κ α) : Prop where
  stored : ∀ session ∈ w.envelope.sessions, session.draftId < w.nextId
  calls : ∀ call, w.calls call = none
  removed : w.removed = []

theorem Start.sound (h : Start w) : Sound w where
  stored := h.stored
  removed := fun draftId hremoved => by
    rw [h.removed] at hremoved
    exact absurd hremoved not_mem_nil
  issued := fun call draftId hissued => by
    obtain ⟨tab, session, after, hcall, -⟩ := hissued
    rw [h.calls call] at hcall
    exact nomatch hcall
  unique := fun call call' draftId hissued => by
    obtain ⟨tab, session, after, hcall, -⟩ := hissued
    rw [h.calls call] at hcall
    exact nomatch hcall

theorem Sound.same (h : Sound w) (henvelope : w'.envelope.sessions = w.envelope.sessions)
    (hremoved : w'.removed = w.removed) (hnext : w'.nextId = w.nextId)
    (hissued : ∀ call draftId, Issued w' call draftId → Issued w call draftId) : Sound w' where
  stored := by
    rw [henvelope, hnext]
    exact h.stored
  removed := by
    rw [henvelope, hnext, hremoved]
    exact h.removed
  issued := fun call draftId hcall => by
    rw [henvelope, hnext, hremoved]
    exact h.issued call draftId (hissued call draftId hcall)
  unique := fun call call' draftId hcall hcall' =>
    h.unique call call' draftId (hissued call draftId hcall) (hissued call' draftId hcall')

def Task.Plain : Task α → Prop
  | .save _ issued _ => issued = false
  | .remove _ _ => True
  | .send _ => True

section

variable (hplain : ∀ entry, next = some entry → entry.2.Plain)
include hplain

theorem issued_update {calls : ℕ → Option (κ × Task α)} {call : ℕ} {session : Session α}
    (h : Function.update calls at' next call = some (tab, .save session true after)) :
    call ≠ at' ∧ calls call = some (tab, .save session true after) := by
  by_cases hcall : call = at'
  · subst hcall
    rw [Function.update_self] at h
    exact absurd (hplain _ h) Bool.noConfusion
  · rw [Function.update_of_ne hcall] at h
    exact ⟨hcall, h⟩

theorem issued_setCall {v : World κ α} {call draftId : ℕ}
    (h : Issued (v.setCall at' next) call draftId) : call ≠ at' ∧ Issued v call draftId := by
  obtain ⟨tab, session, after, hcall, hid⟩ := h
  obtain ⟨hne, hbefore⟩ := issued_update hplain hcall
  exact ⟨hne, tab, session, after, hbefore, hid⟩

end

theorem Sound.setCall (h : Sound w) (at' : ℕ)
    (hplain : ∀ entry, next = some entry → entry.2.Plain) : Sound (w.setCall at' next) :=
  h.same rfl rfl rfl fun _ _ hissued => (issued_setCall hplain hissued).2

theorem Sound.call (h : Sound w) (tab : κ) (hplain : task.Plain) : Sound (w.call tab task) := by
  refine h.same rfl rfl rfl fun call draftId hissued => ?_
  obtain ⟨tab', session, after, hcall, hid⟩ := hissued
  have hall : ∀ entry, some (tab, task) = some entry → entry.2.Plain := fun entry hentry => by
    rw [← some.inj hentry]
    exact hplain
  exact ⟨tab', session, after, (issued_update hall hcall).2, hid⟩

theorem Sound.create (h : Sound w) (tab : κ) (rootId : String) (content : α) :
    Sound ({ w with nextId := w.nextId + 1 }.call tab (.save ⟨w.nextId, rootId, 0, content⟩ true .done)) := by
  have hissued : ∀ call draftId,
      Issued ({ w with nextId := w.nextId + 1 }.call tab (.save ⟨w.nextId, rootId, 0, content⟩ true .done))
        call draftId → (call = w.nextCall ∧ draftId = w.nextId) ∨ (call ≠ w.nextCall ∧ Issued w call draftId) := by
    rintro call draftId ⟨tab', session, after, hcall, rfl⟩
    have hupdate : Function.update w.calls w.nextCall (some (tab, .save ⟨w.nextId, rootId, 0, content⟩ true .done)) call =
          some (tab', .save session true after) := hcall
    by_cases hnew : call = w.nextCall
    · rw [hnew, Function.update_self] at hupdate
      have hsession := (Task.save.inj (Prod.mk.inj (some.inj hupdate)).2).1
      exact .inl ⟨hnew, by rw [← hsession]⟩
    · rw [Function.update_of_ne hnew] at hupdate
      exact .inr ⟨hnew, tab', session, after, hupdate, rfl⟩
  refine ⟨fun session hsession => Nat.lt_succ_of_lt (h.stored session hsession), fun draftId hremoved => ?_,
    fun call draftId hcall => ?_, fun call call' draftId hcall hcall' => ?_⟩
  · obtain ⟨hlt, hnot⟩ := h.removed draftId hremoved
    exact ⟨Nat.lt_succ_of_lt hlt, hnot⟩
  · rcases hissued call draftId hcall with ⟨-, rfl⟩ | ⟨-, hbefore⟩
    · refine ⟨Nat.lt_succ_self _, fun hremoved => ?_, fun session hsession heq => ?_⟩
      · exact absurd (h.removed _ hremoved).1 (Nat.lt_irrefl _)
      · exact absurd (h.stored session hsession) (by rw [heq]; exact Nat.lt_irrefl _)
    · obtain ⟨hlt, hrest⟩ := h.issued call draftId hbefore
      exact ⟨Nat.lt_succ_of_lt hlt, hrest⟩
  · rcases hissued call draftId hcall with ⟨hnew, hid⟩ | ⟨hold, hbefore⟩
    · rcases hissued call' draftId hcall' with ⟨hnew', -⟩ | ⟨-, hbefore'⟩
      · exact hnew.trans hnew'.symm
      · exact absurd (h.issued call' draftId hbefore').1 (by rw [hid]; exact Nat.lt_irrefl _)
    · rcases hissued call' draftId hcall' with ⟨-, hid'⟩ | ⟨-, hbefore'⟩
      · exact absurd (h.issued call draftId hbefore).1 (by rw [hid']; exact Nat.lt_irrefl _)
      · exact h.unique call call' draftId hbefore hbefore'

variable [DecidableEq κ]

theorem Saved.mem {envelope envelope' : Envelope α} {session persisted : Session α} {issued : Bool}
    (h : Saved envelope session issued envelope' persisted) {stored : Session α}
    (hstored : stored ∈ envelope'.sessions) : (∃ before ∈ envelope.sessions, before.draftId = stored.draftId) ∨
      (issued = true ∧ stored.draftId = session.draftId) := by
  cases h with
  | first hnone hrevision hissued hpersisted hsessions =>
    rw [hsessions] at hstored
    rcases mem_append.mp hstored with hbefore | hnew
    · exact .inl ⟨stored, hbefore, rfl⟩
    · rw [mem_singleton.mp hnew, hpersisted]
      exact .inr ⟨hissued, rfl⟩
  | next before hbefore hrevision hpersisted hsessions =>
    have hmem : stored.draftId ∈ envelope.sessions.map Session.draftId := by
      have hids : (replaceSession persisted envelope.sessions).map Session.draftId =
          envelope.sessions.map Session.draftId := ids_replaceSession envelope.sessions
      rw [← hids, ← hsessions]
      exact mem_map_of_mem hstored
    exact .inl (mem_map.mp hmem)

theorem Sound.save (h : Sound w) {call : ℕ} {session persisted : Session α} {issued : Bool}
    (hcall : w.calls call = some (tab, .save session issued after))
    {envelope : Envelope α} (hsaved : Saved w.envelope session issued envelope persisted) :
    Sound ((w.publish tab envelope).setCall call (after.next tab persisted)) := by
  have hplain : ∀ entry, after.next tab persisted = some entry → entry.2.Plain := by
    intro entry hentry
    cases after with
    | done => exact nomatch hentry
    | dirty content =>
      rw [← some.inj hentry]
      rfl
    | send =>
      rw [← some.inj hentry]
      trivial
  have hself : issued = true → Issued w call session.draftId := fun hissued => by
    rw [hissued] at hcall
    exact ⟨tab, session, after, hcall, rfl⟩
  refine ⟨fun stored hstored => ?_, fun draftId hremoved => ⟨(h.removed draftId hremoved).1, fun stored hstored heq => ?_⟩,
    fun call' draftId hissued' => ?_, fun call' call'' draftId hissued' hissued'' => ?_⟩
  · rcases hsaved.mem hstored with ⟨before, hbefore, hid⟩ | ⟨hissued, hid⟩
    · rw [← hid]
      exact h.stored before hbefore
    · rw [hid]
      exact (h.issued call _ (hself hissued)).1
  · rcases hsaved.mem hstored with ⟨before, hbefore, hid⟩ | ⟨hissued, hid⟩
    · exact (h.removed draftId hremoved).2 before hbefore (hid.trans heq)
    · refine (h.issued call _ (hself hissued)).2.1 ?_
      rw [← hid, heq]
      exact hremoved
  · obtain ⟨hother, hbefore⟩ := issued_setCall hplain hissued'
    obtain ⟨hlt, hkept, hunstored⟩ := h.issued call' draftId hbefore
    refine ⟨hlt, hkept, fun stored hstored heq => ?_⟩
    rcases hsaved.mem hstored with ⟨before, hmem, hid⟩ | ⟨hissued, hid⟩
    · exact hunstored before hmem (hid.trans heq)
    -- the object of this call is the only one of its draft
    refine hother (h.unique call' call draftId hbefore ?_)
    rw [← heq, hid]
    exact hself hissued
  · exact h.unique call' call'' draftId (issued_setCall hplain hissued').2 (issued_setCall hplain hissued'').2

theorem Sound.remove (h : Sound w) {call draftId : ℕ} {envelope : Envelope α} {existed : Bool}
    (hremoved : (existed = false ∧ envelope.sessions = w.envelope.sessions) ∨
      (existed = true ∧ (∃ stored ∈ w.envelope.sessions, stored.draftId = draftId) ∧
        envelope.sessions = w.envelope.sessions.filter fun stored => stored.draftId ≠ draftId)) :
    Sound ({ w.publish tab envelope with
      removed := if existed then draftId :: w.removed else w.removed }.setCall call none) := by
  have hplain : ∀ entry, (none : Option (κ × Task α)) = some entry → entry.2.Plain :=
    fun entry hentry => nomatch hentry
  rcases hremoved with ⟨rfl, hsessions⟩ | ⟨rfl, ⟨stored, hstored, hid⟩, hsessions⟩
  · exact h.same hsessions rfl rfl fun _ _ hissued => (issued_setCall hplain hissued).2
  have hsub : ∀ session ∈ envelope.sessions, session ∈ w.envelope.sessions ∧ session.draftId ≠ draftId := by
    intro session hsession
    rw [hsessions] at hsession
    obtain ⟨hmem, hne⟩ := mem_filter.mp hsession
    exact ⟨hmem, of_decide_eq_true hne⟩
  refine ⟨fun session hsession => h.stored session (hsub session hsession).1, fun draftId' hremoved => ?_,
    fun call' draftId' hissued => ?_, fun call' call'' draftId' hissued hissued' => ?_⟩
  · rcases mem_cons.mp hremoved with rfl | hbefore
    · exact ⟨by rw [← hid]; exact h.stored stored hstored, fun session hsession => (hsub session hsession).2⟩
    · exact ⟨(h.removed draftId' hbefore).1, fun session hsession =>
        (h.removed draftId' hbefore).2 session (hsub session hsession).1⟩
  · obtain ⟨hlt, hkept, hunstored⟩ := h.issued call' draftId' (issued_setCall hplain hissued).2
    refine ⟨hlt, fun hremoved => ?_, fun session hsession => hunstored session (hsub session hsession).1⟩
    rcases mem_cons.mp hremoved with rfl | hbefore
    · exact hunstored stored hstored hid
    · exact hkept hbefore
  · exact h.unique call' call'' draftId' (issued_setCall hplain hissued).2 (issued_setCall hplain hissued').2

/-- A commit brings back no removed draft, and its new draft has an id of its own. -/
theorem Sound.commit (h : Sound w) {call : ℕ}
    (hcall : w.calls call = some (tab, task)) (hact : w.commit call tab task = some w') : Sound w' := by
  cases task with
  | save session issued after =>
    simp only [World.commit] at hact
    split at hact
    · rw [← some.inj hact]
      exact h.setCall call fun entry hentry => nomatch hentry
    · rename_i envelope persisted hupdate
      rw [← some.inj hact]
      exact h.save hcall (saveUpdate_ok hupdate)
  | remove draftId expectedRevision =>
    simp only [World.commit] at hact
    split at hact
    · rw [← some.inj hact]
      exact h.setCall call fun entry hentry => nomatch hentry
    · rename_i envelope existed hupdate
      rw [← some.inj hact]
      exact h.remove (removeUpdate_ok hupdate)
  | send session => exact nomatch hact

/-- Every action of a tab keeps the drafts sound. -/
theorem Sound.step (h : Sound w) {a : Action κ α} (hact : w.act a = some w') : Sound w' := by
  cases a with
  | create tab rootId content =>
    rw [← some.inj hact]
    exact h.create tab rootId content
  | persist tab session content | markDirty tab session content dirty | discard tab session
  | finalize tab session content =>
    simp only [World.act] at hact
    split at hact
    · rw [← some.inj hact]
      exact h.call tab (by first | rfl | trivial)
    · exact nomatch hact
  | hydrate tab =>
    rw [← some.inj hact]
    exact h.same rfl rfl rfl fun _ _ hissued => hissued
  | restore tab sessions =>
    rw [← some.inj hact]
    exact h.same rfl rfl rfl fun _ _ hissued => hissued
  | setClock now =>
    rw [← some.inj hact]
    exact h.same rfl rfl rfl fun _ _ hissued => hissued
  | commit call =>
    obtain ⟨⟨tab, task⟩, hcall, hcommit⟩ := bind_eq_some_iff.mp hact
    exact h.commit hcall hcommit
  | reply call answer =>
    simp only [World.act] at hact
    split at hact
    · split at hact
      · rw [← some.inj hact]
        exact h.setCall call fun entry hentry => nomatch hentry
      · rw [← some.inj hact]
        refine h.setCall call fun entry hentry => ?_
        rw [← some.inj hentry]
        trivial
    · exact nomatch hact
  | abandon call =>
    rw [← some.inj hact]
    exact h.setCall call fun entry hentry => nomatch hentry

/-- Drafts are compared and set: a removed draft is not stored; an accepted save was made on the stored
revision, stores the next one with the content it has, and leaves other drafts; and a save on an older
revision is refused. -/
structure ComparesAndSets (w : World κ α) : Prop where
  removed : ∀ draftId ∈ w.removed, w.envelope.find draftId = none
  accepted : ∀ session issued envelope persisted, saveUpdate w.envelope session issued = .ok (envelope, persisted) →
      session.revision = w.envelope.revision session.draftId ∧
        (∃ stored, envelope.find session.draftId = some stored ∧ stored.content = session.content ∧
          stored.revision = w.envelope.revision session.draftId + 1) ∧
        ∀ draftId, draftId ≠ session.draftId → envelope.find draftId = w.envelope.find draftId
  refused : ∀ session issued stored, w.envelope.find session.draftId = some stored →
    session.revision < stored.revision → ∃ refusal, saveUpdate w.envelope session issued = .error refusal

/-- In every state the tabs reach, drafts are compared and set. -/
theorem drafts_compared_and_set (hstart : Start start) (hrun : Run start w) : ComparesAndSets w := by
  have hsound : Sound w := by
    induction hrun with
    | start => exact hstart.sound
    | step _ hact ih => exact ih.step hact
  exact ⟨fun draftId hremoved => find_eq_none (hsound.removed draftId hremoved).2,
    fun session issued envelope persisted hupdate => (saveUpdate_ok hupdate).spec,
    fun session issued stored hstored hstale => saveUpdate_stale hstored hstale⟩

end Runs

/-- Two tabs read a draft; the first saves it, the save of the second is refused, and the first removes it. -/
theorem drafts_compared_and_set_sample : ∃ w w' : World Bool String,
    w.envelope.sessions = [⟨0, "plan", 2, "first"⟩] ∧ ComparesAndSets w ∧
      w'.removed = [0] ∧ w'.envelope.sessions = [] ∧ ComparesAndSets w' := by
  let start : World Bool String := ⟨⟨[], .empty⟩, fun _ => [], fun _ => none, 0, 0, 100, []⟩
  have hstart : Start start :=
    ⟨fun session hsession => absurd hsession not_mem_nil, fun _ => rfl, rfl⟩
  have hcreate := (@Run.start _ _ _ start).step (a := .create true "plan" "draft") rfl
  have hread := (hcreate.step (a := .commit 0) rfl).step (a := .hydrate false) rfl
  have hfirst := hread.step (a := .persist true ⟨0, "plan", 1, "draft"⟩ "first") rfl
  have hsecond := hfirst.step (a := .persist false ⟨0, "plan", 1, "draft"⟩ "second") rfl
  have hrefused := (hsecond.step (a := .commit 1) rfl).step (a := .commit 2) rfl
  have hdiscard := hrefused.step (a := .discard true ⟨0, "plan", 2, "first"⟩) rfl
  have hremoved := hdiscard.step (a := .commit 3) rfl
  exact ⟨_, _, rfl, drafts_compared_and_set hstart hrefused, rfl, rfl, drafts_compared_and_set hstart hremoved⟩

end Bidding.Plans
