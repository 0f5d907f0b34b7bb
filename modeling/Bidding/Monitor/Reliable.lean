import Bidding.Monitor.Worker

/-!
# The monitor loses nothing and repeats nothing

In every run of any number of workers what is known of a notice grows by what is notified. So a digest is counted by at
most one notification, and one that was never notified by the next of a run that observes it.
-/

namespace Bidding.Monitor

open Foundations List Function
open Option hiding filter_filter map_map

variable {ι ρ : Type} [DecidableEq ι] {digest : ρ → String} {t : NoticeTexts}

/-! ## What a run publishes -/

def knownAt (rows : MonitorRows) (key : NoticeKey) (category : Category) : Option (Finset String) :=
  (rows key).bind fun state => state.seen category

def told (notification : Option Notification) (key : NoticeKey) (category : Category) : Finset String :=
  match notification with
  | some n => if n.key = key then n.digests category else ∅
  | none => ∅

theorem checkedRows_nodup (run : MonitorRun) (previous : Baselines) (observed : Option (Observed ρ)) :
    ((checkedRows run previous observed).map Prod.fst).Nodup := by
  unfold checkedRows
  rw [map_map]
  have hcategories : categories.Nodup := by decide
  exact (hcategories.filter _).map fun _ _ h => h

section Publication

variable {context : FinishContext} {run : MonitorRun} {key : NoticeKey} {state : MonitorState}
  {observed : Option (Observed ρ)} {reason : Option String} {p : Publication} {n : Notification}

section

variable (h : publication digest context run key state observed reason = p)
include h

theorem publication_cases : (p.notification = none ∧ (p.seen = state.seen ∨
      p.seen = (changes digest state.seen (checkedRows run state.seen observed)).updated ∧
        (changes digest state.seen (checkedRows run state.seen observed)).counts = [])) ∨
    (p.notification = some ⟨key, context.recipients, (changes digest state.seen (checkedRows run state.seen observed)).counts,
        newDigests digest state.seen (checkedRows run state.seen observed)⟩ ∧
      p.seen = (changes digest state.seen (checkedRows run state.seen observed)).updated ∧
      (changes digest state.seen (checkedRows run state.seen observed)).counts ≠ []) := by
  subst h
  unfold publication
  dsimp only
  generalize reason.or _ = error
  split_ifs with hbusy hcounts hrecipients hkey
  · exact Or.inl ⟨rfl, Or.inl rfl⟩
  · exact Or.inl ⟨rfl, Or.inr ⟨rfl, hcounts⟩⟩
  · exact Or.inl ⟨rfl, Or.inl rfl⟩
  · exact Or.inl ⟨rfl, Or.inl rfl⟩
  · exact Or.inr ⟨rfl, rfl, hcounts⟩

theorem grows_publication
    (category : Category) : Grows (state.seen category) (p.seen category) (told p.notification key category) := by
  have hnodup := checkedRows_nodup run state.seen observed
  have hgrows := @grows_changes ρ digest state.seen _ hnodup category
  rcases publication_cases h with ⟨hnotification, hseen | ⟨hseen, hcounts⟩⟩ | ⟨hnotification, hseen, -⟩
  · rw [hnotification, hseen]
    exact Grows.stay (state.seen category)
  · rw [hnotification, hseen]
    rw [updated_of_no_counts hnodup hcounts category] at hgrows
    exact hgrows
  · rw [hnotification, hseen]
    unfold told
    dsimp only
    rw [if_pos rfl]
    exact hgrows

end

theorem counts_publication (h : (publication digest context run key state observed reason).notification = some n) :
    n.counts = (categories.filter fun category => n.digests category ≠ ∅).map fun category =>
      (category, (n.digests category).card) := by
  rcases publication_cases rfl with ⟨hnotification, -⟩ | ⟨hnotification, -⟩
  · rw [hnotification] at h
    cases h
  rw [hnotification] at h
  rw [← some.inj h]
  dsimp only
  rw [counts_eq (checkedRows_nodup run state.seen observed)]
  have hkeys : (checkedRows run state.seen observed).map Prod.fst =
      categories.filter fun category => !run.baselineOnly || (state.seen category).isNone := by
    unfold checkedRows
    rw [map_map]
    exact map_id _
  congr 1
  rw [hkeys, filter_filter]
  apply filter_congr
  intro category hcategory
  rw [Bool.and_eq_left_iff_imp]
  intro hnew
  by_contra hskipped
  rw [decide_eq_true_iff] at hnew
  apply hnew
  apply newDigests_of_not_observed
  rw [hkeys, mem_filter, not_and]
  exact fun _ => hskipped

theorem mem_digests_publication {o : Observed ρ} {category : Category} {known : Finset String}
    {rows : List ρ} {d : String}
    (h : (publication digest context run key state (some o) reason).notification = some n)
    (hknown : state.seen category = some known) (hrows : o.rows category = some rows) (hd : d ∈ digests digest rows)
    (hfresh : d ∉ known) : d ∈ n.digests category := by
  rcases publication_cases rfl with ⟨hnotification, -⟩ | ⟨hnotification, -, hcounts⟩
  · rw [hnotification] at h
    cases h
  rw [hnotification] at h
  rw [← some.inj h]
  dsimp only
  -- a run that only takes first rows as known has nothing to count
  have hall : run.baselineOnly = false := by
    by_contra hbaseline
    apply hcounts
    rw [counts_eq (checkedRows_nodup run state.seen (some o)), map_eq_nil_iff, filter_eq_nil_iff]
    intro c hc
    obtain ⟨entry, hentry, rfl⟩ := mem_map.mp hc
    obtain ⟨c, hchecked, rfl⟩ := mem_map.mp hentry
    have hnone : state.seen c = none := by simpa [hbaseline] using (mem_filter.mp hchecked).2
    rw [newDigests_of_none hnone]
    simp
  have hlookup : (checkedRows run state.seen (some o)).lookup category = some (some rows) := by
    unfold checkedRows categories
    rw [hall]
    cases category with
    | clarification => simp [hrows]
    | petition =>
      simp only [filter_cons, Bool.not_false, Bool.true_or, if_true, filter_nil, map_cons, map_nil,
        bind_some, hrows]
      rfl
  unfold newDigests
  rw [hknown, hlookup]
  exact Finset.mem_sdiff.mpr ⟨hd, hfresh⟩

end Publication

section Finish

variable {context : FinishContext} {run : MonitorRun} {package : Package} {token : ℕ} {observed : Option (Observed ρ)}
  {reason : Option String} {rows : MonitorRows}

/-- A finish without the lease writes nothing; one with it publishes, or keeps what is known. -/
theorem finish_cases : finish digest t context run package token observed reason rows = (rows, none) ∨
    ∃ key state, keyOf t package = some key ∧ rows key = some state ∧ state.leaseToken = some token ∧
      (finish digest t context run package token observed reason rows =
          (update rows key (some { state with leaseToken := none, leaseUntil := 0 }), none) ∨
          ∃ state', (state').seen = (publication digest context run key state observed reason).seen ∧
            finish digest t context run package token observed reason rows = (update rows key (some state'),
                (publication digest context run key state observed reason).notification)) := by
  unfold finish
  cases hkey : keyOf t package with
  | none => exact Or.inl rfl
  | some key =>
    cases hrow : rows key with
    | none => exact Or.inl (by simp [hrow])
    | some state =>
      simp only [bind_some, hrow, map_some]
      generalize hcompleted : (if (publication digest context run key state observed reason).error.isNone ||
        maxAttempts ≤ state.attempts then run.slot else state.completedSlot) = completed
      split_ifs with htoken hgone
      · exact Or.inl rfl
      · exact Or.inr ⟨key, state, rfl, hrow, not_not.mp htoken, Or.inl rfl⟩
      · exact Or.inr ⟨key, state, rfl, hrow, not_not.mp htoken, Or.inr ⟨_, rfl, rfl⟩⟩

theorem knownAt_update_of_ne {key key' : NoticeKey} {state : MonitorState} (h : key' ≠ key) (category : Category) :
    knownAt (update rows key (some state)) key' category = knownAt rows key' category := by
  unfold knownAt
  rw [update_of_ne h]

theorem knownAt_update_self (key : NoticeKey) (state : MonitorState) (category : Category) :
    knownAt (update rows key (some state)) key category = state.seen category := by
  unfold knownAt
  rw [update_self]
  rfl

theorem grows_finish (key : NoticeKey) (category : Category) : Grows (knownAt rows key category)
    (knownAt (finish digest t context run package token observed reason rows).1 key category)
    (told (finish digest t context run package token observed reason rows).2 key category) := by
  rcases @finish_cases ρ digest t context run package token observed reason rows with
    hnothing | ⟨key', state, -, hrow, -, hcleared | ⟨state', hseen, hpublished⟩⟩
  · rw [hnothing]
    exact Grows.stay _
  · rw [hcleared]
    by_cases hkey : key = key'
    · subst hkey
      rw [knownAt_update_self]
      unfold knownAt
      rw [hrow]
      exact Grows.stay _
    · rw [knownAt_update_of_ne hkey]
      exact Grows.stay _
  · rw [hpublished]
    by_cases hkey : key = key'
    · subst hkey
      rw [knownAt_update_self, hseen]
      unfold knownAt
      rw [hrow]
      exact grows_publication rfl category
    · have hnothing : told (publication digest context run key' state observed reason).notification key category = ∅ := by
        rcases @publication_cases ρ digest context run key' state observed reason _ rfl with
          ⟨hnotification, -⟩ | ⟨hnotification, -⟩
        · rw [hnotification]
          rfl
        · rw [hnotification]
          exact if_neg (Ne.symm hkey)
      rw [knownAt_update_of_ne hkey, hnothing]
      exact Grows.stay _

end Finish

theorem lease_cases {rows rows' : MonitorRows} {run : MonitorRun} {key : NoticeKey} {token : ℕ}
    (h : lease rows run key token = some rows') :
    ∃ state, rows' = update rows key (some state) ∧ ∀ c, state.seen c = knownAt rows key c := by
  unfold lease at h
  cases hrow : rows key with
  | none =>
    rw [hrow] at h
    refine ⟨_, (some.inj h).symm, fun c => ?_⟩
    unfold knownAt
    rw [hrow]
    rfl
  | some state =>
    rw [hrow] at h
    dsimp only at h
    by_cases hfree : state.leaseUntil ≤ run.epoch ∧ state.completedSlot < run.slot
    · rw [if_pos hfree] at h
      refine ⟨_, (some.inj h).symm, fun c => ?_⟩
      unfold knownAt
      rw [hrow]
      rfl
    · rw [if_neg hfree] at h
      cases h

theorem knownAt_lease {rows rows' : MonitorRows} {run : MonitorRun} {key : NoticeKey} {token : ℕ}
    (h : lease rows run key token = some rows') (key' : NoticeKey) (category : Category) :
    knownAt rows' key' category = knownAt rows key' category := by
  obtain ⟨state, rfl, hseen⟩ := lease_cases h
  by_cases hkey : key' = key
  · subst hkey
    rw [knownAt_update_self, hseen]
  · exact knownAt_update_of_ne hkey category

variable {w w' : World ι ρ} {category : Category}

theorem Step.spec (h : Step digest t w w') :
    ∃ notification : Option Notification, w'.notifications = w.notifications ++ notification.toList ∧
      ∀ key category, Grows (knownAt w.rows key category) (knownAt w'.rows key category) (told notification key category) := by
  have hquiet {w' : World ι ρ} (hrows : w'.rows = w.rows) (hnotifications : w'.notifications = w.notifications) :
      ∃ notification : Option Notification, w'.notifications = w.notifications ++ notification.toList ∧
        ∀ key category, Grows (knownAt w.rows key category) (knownAt w'.rows key category)
          (told notification key category) := by
    refine ⟨none, ?_, fun key category => ?_⟩
    · rw [hnotifications, toList_none, append_nil]
    · rw [hrows]
      exact Grows.stay _
  cases h with
  | tick | edit | start | select | fetch | fetchFails | finishFails | crash => exact hquiet rfl rfl
  | lease i run package key rows hphase hkey hlease =>
    refine ⟨none, (append_nil _).symm, fun key' category => ?_⟩
    have hknown : knownAt rows key' category = knownAt w.rows key' category := knownAt_lease hlease key' category
    exact hknown ▸ Grows.stay _
  | finish i run package token observed context hphase hcurrent hepoch => exact ⟨_, rfl, grows_finish⟩
  | giveUp i run package token reason context hphase hcurrent hepoch => exact ⟨_, rfl, grows_finish⟩

/-! ## Whole runs -/

def reports (notifications : List Notification) (key : NoticeKey) (category : Category) : List (Finset String) :=
  notifications.map fun n => told (some n) key category

theorem timesReported_reports (notifications : List Notification) (key : NoticeKey) (category : Category) (d : String) :
    timesReported (reports notifications key category) d =
      notifications.countP fun n => n.key = key ∧ d ∈ n.digests category := by
  unfold timesReported reports
  rw [countP_map]
  apply countP_congr
  intro n _
  unfold told
  by_cases hkey : n.key = key <;> simp [hkey]

def World.Accounted (w : World ι ρ) : Prop :=
  ∀ key category, Foundations.Accounted (knownAt w.rows key category) (reports w.notifications key category)

omit [DecidableEq ι] in
theorem accounted_initialWorld (clock : ℕ) (packages : List Package) : (initialWorld clock packages : World ι ρ).Accounted :=
  fun _ _ => Foundations.Accounted.nil _

/-- A step reports exactly what becomes known. -/
theorem World.Accounted.step (haccounted : w.Accounted) (h : Step digest t w w') : w'.Accounted := by
  obtain ⟨notification, hnotifications, hgrows⟩ := h.spec
  intro key category
  have hgrows := hgrows key category
  unfold reports
  rw [hnotifications]
  cases notification with
  | none =>
    rw [toList_none, append_nil]
    exact (haccounted key category).quiet hgrows
  | some n =>
    rw [toList_some, map_append]
    exact (haccounted key category).step hgrows

theorem World.Accounted.run (haccounted : w.Accounted) (h : Run digest t w w') : w'.Accounted := by
  induction h with
  | start => exact haccounted
  | step _ hstep ih => exact ih.step hstep

def Notification.Counted (n : Notification) : Prop :=
  n.counts = (categories.filter fun category => n.digests category ≠ ∅).map fun category =>
    (category, (n.digests category).card)

theorem counted_finish {context : FinishContext} {run : MonitorRun} {package : Package} {token : ℕ}
    {observed : Option (Observed ρ)} {reason : Option String} {rows : MonitorRows} {n : Notification}
    (h : (finish digest t context run package token observed reason rows).2 = some n) : n.Counted := by
  rcases @finish_cases ρ digest t context run package token observed reason rows with
    hnothing | ⟨key, state, -, -, -, hcleared | ⟨state', -, hpublished⟩⟩
  · rw [hnothing] at h
    cases h
  · rw [hcleared] at h
    cases h
  · rw [hpublished] at h
    exact counts_publication h

/-- A step sends only notifications that count what they tell. -/
theorem Step.counted (h : Step digest t w w') (hcounted : ∀ n ∈ w.notifications, n.Counted) :
    ∀ n ∈ w'.notifications, n.Counted := by
  have hfinished (context : FinishContext) (run : MonitorRun) (package : Package) (token : ℕ)
      (observed : Option (Observed ρ)) (reason : Option String) :
      ∀ n ∈ (w.finished digest t context run package token observed reason).notifications, n.Counted := by
    intro n hn
    rcases mem_append.mp hn with hold | hnew
    · exact hcounted n hold
    · exact counted_finish (mem_toList.mp hnew)
  cases h with
  | tick | edit | start | select | lease | fetch | fetchFails | finishFails | crash => exact hcounted
  | finish i run package token observed context hphase hcurrent hepoch =>
    exact hfinished context run package token observed none
  | giveUp i run package token reason context hphase hcurrent hepoch =>
    exact hfinished context run package token none reason

section

variable (h : Run digest t w w')
include h

theorem Run.counted (hcounted : ∀ n ∈ w.notifications, n.Counted) : ∀ n ∈ w'.notifications, n.Counted := by
  induction h with
  | start => exact hcounted
  | step _ hstep ih => exact hstep.counted ih

theorem Run.known {key : NoticeKey}
    {known : Finset String} (hknown : knownAt w.rows key category = some known) :
    ∃ known', knownAt w'.rows key category = some known' ∧ known ⊆ known' := by
  induction h with
  | start => exact ⟨known, hknown, Finset.Subset.refl known⟩
  | step _ hstep ih =>
    obtain ⟨known', hknown', hsubset⟩ := ih
    obtain ⟨notification, -, hgrows⟩ := hstep.spec
    obtain ⟨known'', hknown'', hsubset'⟩ := (hgrows key category).subset hknown'
    exact ⟨known'', hknown'', hsubset.trans hsubset'⟩

theorem Run.notifications : ∃ later, w'.notifications = w.notifications ++ later := by
  induction h with
  | start => exact ⟨[], (append_nil _).symm⟩
  | step _ hstep ih =>
    obtain ⟨later, hlater⟩ := ih
    obtain ⟨notification, hnotification, -⟩ := hstep.spec
    exact ⟨later ++ notification.toList, by rw [hnotification, hlater, append_assoc]⟩

theorem Run.pending {key : NoticeKey}
    {known known' : Finset String} {d : String} (hknown : knownAt w.rows key category = some known) (hd : d ∉ known)
    (hknown' : knownAt w'.rows key category = some known')
    (hquiet : ∀ n ∈ w'.notifications.drop w.notifications.length, n.key = key → d ∉ n.digests category) :
    d ∉ known' := by
  induction h generalizing known' with
  | start =>
    rw [hknown] at hknown'
    rw [← some.inj hknown']
    exact hd
  | @step w' w'' hrun hstep ih =>
    obtain ⟨before, hbefore, -⟩ := hrun.known hknown
    obtain ⟨later, hlater⟩ := hrun.notifications
    obtain ⟨notification, hnotification, hgrows⟩ := hstep.spec
    rw [hnotification, hlater, append_assoc, drop_left] at hquiet
    have hnotyet : d ∉ before := by
      apply ih hbefore
      intro n hn
      rw [hlater, drop_left] at hn
      exact hquiet n (mem_append_left _ hn)
    intro hmem
    have htold := (hgrows key category).mem_reported hbefore hknown' hmem hnotyet
    cases notification with
    | none => exact Finset.notMem_empty d htold
    | some n =>
      unfold told at htold
      dsimp only at htold
      split_ifs at htold with hkey
      · exact hquiet n (mem_append_right _ (mem_toList.mpr rfl)) hkey htold
      · exact Finset.notMem_empty d htold

end

/-! ## Nothing lost, nothing repeated -/

/-- The monitor is reliable from a world on. -/
structure Reliable (digest : ρ → String) (t : NoticeTexts) (w : World ι ρ) : Prop where
  /-- A finish whose token is not the stored one changes nothing. -/
  stale : ∀ (context : FinishContext) (run : MonitorRun) (package : Package) (token : ℕ)
    (observed : Option (Observed ρ)) (reason : Option String),
    (∀ key state, keyOf t package = some key → w.rows key = some state → state.leaseToken ≠ some token) →
      w.finished digest t context run package token observed reason = w
  /-- What is known stays known. -/
  kept : ∀ w', Run digest t w w' → ∀ key category known, knownAt w.rows key category = some known →
    ∃ known', knownAt w'.rows key category = some known' ∧ known ⊆ known'
  /-- A digest becomes known in the step that notifies it. -/
  notified : ∀ w', Step digest t w w' → ∀ key category known known', knownAt w.rows key category = some known →
    knownAt w'.rows key category = some known' → ∀ d ∈ known', d ∉ known →
      ∃ n, w'.notifications = w.notifications ++ [n] ∧ n.key = key ∧ d ∈ n.digests category
  /-- The first digests become known silently. -/
  silent : ∀ w', Step digest t w w' → ∀ key category, knownAt w.rows key category = none →
    ∀ n, w'.notifications = w.notifications ++ [n] → n.key = key → n.digests category = ∅
  /-- A digest is counted at most once. -/
  once : ∀ key category d, (w.notifications.countP fun n => n.key = key ∧ d ∈ n.digests category) ≤ 1
  counted : ∀ n ∈ w.notifications, n.Counted
  /-- A digest that is not notified does not become known. -/
  pending : ∀ w', Run digest t w w' → ∀ key category known known' d, knownAt w.rows key category = some known →
    d ∉ known → knownAt w'.rows key category = some known' →
      (∀ n ∈ w'.notifications.drop w.notifications.length, n.key = key → d ∉ n.digests category) → d ∉ known'
  /-- The next notification of a run that observes it counts it. -/
  next : ∀ (context : FinishContext) (run : MonitorRun) (package : Package) (token : ℕ) (observed : Observed ρ)
    (reason : Option String) key category known rows d n, keyOf t package = some key →
      knownAt w.rows key category = some known → d ∉ known → observed.rows category = some rows →
        d ∈ digests digest rows → (w.finished digest t context run package token (some observed) reason).notifications =
            w.notifications ++ [n] → n.key = key ∧ d ∈ n.digests category

omit [DecidableEq ι] in
theorem finished_of_stale {context : FinishContext} {run : MonitorRun} {package : Package} {token : ℕ}
    {observed : Option (Observed ρ)} {reason : Option String}
    (h : ∀ key state, keyOf t package = some key → w.rows key = some state → state.leaseToken ≠ some token) :
    w.finished digest t context run package token observed reason = w := by
  unfold World.finished
  rcases @finish_cases ρ digest t context run package token observed reason w.rows with
    hnothing | ⟨key, state, hkey, hrow, htoken, -⟩
  · rw [hnothing]
    simp
  · exact absurd htoken (h key state hkey hrow)

omit [DecidableEq ι] in
theorem notification_of_finished {context : FinishContext} {run : MonitorRun} {package : Package}
    {token : ℕ} {observed : Option (Observed ρ)} {reason : Option String} {n : Notification} {key : NoticeKey}
    (hkey : keyOf t package = some key)
    (h : (w.finished digest t context run package token observed reason).notifications = w.notifications ++ [n]) :
    n.key = key ∧ ∃ state, w.rows key = some state ∧
      (publication digest context run key state observed reason).notification = some n := by
  have hsome : (finish digest t context run package token observed reason w.rows).2 = some n := by
    have hlist := append_cancel_left h
    cases hresult : (finish digest t context run package token observed reason w.rows).2 with
    | none =>
      rw [hresult] at hlist
      cases hlist
    | some n' =>
      rw [hresult] at hlist
      rw [(List.cons.inj hlist).1]
  rcases @finish_cases ρ digest t context run package token observed reason w.rows with
    hnothing | ⟨key', state, hkey', hrow, -, hcleared | ⟨state', -, hpublished⟩⟩
  · rw [hnothing] at hsome
    cases hsome
  · rw [hcleared] at hsome
    cases hsome
  · rw [hpublished] at hsome
    obtain rfl := mem_unique hkey hkey'
    refine ⟨?_, state, hrow, hsome⟩
    rcases publication_cases rfl with ⟨hnotification, -⟩ | ⟨hnotification, -⟩
    · rw [hnotification] at hsome
      cases hsome
    · rw [hnotification] at hsome
      rw [← some.inj hsome]

/-- In every run of any number of workers the monitor loses nothing and repeats nothing. -/
theorem monitor_reliable {clock : ℕ} {packages : List Package} {w : World ι ρ}
    (h : Run digest t (initialWorld clock packages) w) : Reliable digest t w where
  stale _ _ _ _ _ _ hstale := finished_of_stale hstale
  kept w' hrun key category known hknown := hrun.known hknown
  notified w' hstep key category known known' hknown hknown' d hd hfresh := by
    obtain ⟨notification, hnotification, hgrows⟩ := hstep.spec
    have htold := (hgrows key category).mem_reported hknown hknown' hd hfresh
    cases notification with
    | none => exact absurd htold (Finset.notMem_empty d)
    | some n =>
      unfold told at htold
      dsimp only at htold
      split_ifs at htold with hkey
      · exact ⟨n, hnotification, hkey, htold⟩
      · exact absurd htold (Finset.notMem_empty d)
  silent w' hstep key category hknown n hn hkey := by
    obtain ⟨notification, hnotification, hgrows⟩ := hstep.spec
    have hsilent := (hgrows key category).silent hknown
    have hlist := append_cancel_left (hnotification.symm.trans hn)
    cases notification with
    | none => cases hlist
    | some n' =>
      rw [(List.cons.inj hlist).1] at hsilent
      unfold told at hsilent
      dsimp only at hsilent
      rwa [if_pos hkey] at hsilent
  once key category d := by
    rw [← timesReported_reports]
    exact (((accounted_initialWorld clock packages).run h) key category).once d
  counted := h.counted fun n hn => absurd hn not_mem_nil
  pending w' hrun key category known known' d hknown hd hknown' hquiet := hrun.pending hknown hd hknown' hquiet
  next context run package token observed reason key category known rows d n hkey hknown hfresh hrows hd hn := by
    obtain ⟨hnkey, state, hrow, hpublished⟩ := notification_of_finished hkey hn
    unfold knownAt at hknown
    rw [hrow] at hknown
    exact ⟨hnkey, mem_digests_publication hpublished hknown hrows hd hfresh⟩

def plainNotices : NoticeTexts := ⟨id, id, Char.isDigit⟩

def noticedPackage : Package := ⟨"org", "p1", "", "IB2600000001", .invited, none⟩

def noticedKey : NoticeKey := ⟨"org", "p1", "IB2600000001"⟩

def noticedRows (rows : List String) : Observed String := ⟨fun _ => some rows, false⟩

def noticedContext (epoch : ℕ) : FinishContext := ⟨epoch, some noticedPackage, false, .written, ["user"], true⟩

/-- A first run takes one row of each category as known, and a second one a day later notifies another. -/
theorem monitor_reliable_sample : ∃ w : World (Fin 2) String, Run id plainNotices (initialWorld 1800000000 [noticedPackage]) w ∧
    Reliable id plainNotices w ∧ knownAt w.rows noticedKey .petition = some {"a", "b"} ∧
    w.notifications.map (fun n => (n.key, n.counts, n.digests .petition)) =
      [(noticedKey, [(.clarification, 1), (.petition, 1)], {"b"})] := by
  have hstart : Run id plainNotices (initialWorld 1800000000 [noticedPackage])
      (initialWorld 1800000000 [noticedPackage] : World (Fin 2) String) := Run.start
  have hleased := ((hstart.step (.start 0 rfl)).step
    (.select 0 (monitorRun 1800000000) noticedPackage rfl mem_cons_self (by decide))).step
      (.lease 0 (monitorRun 1800000000) noticedPackage noticedKey _ rfl (by decide) rfl)
  have hfinished := (hleased.step (.fetch 0 _ noticedPackage 0 (noticedRows ["a"]) rfl)).step
    (.finish 0 _ noticedPackage 0 _ (noticedContext 1800000000) rfl (by decide) (Nat.le_refl _))
  have hagain := (((hfinished.step (.tick 86400)).step (.start 1 rfl)).step
    (.select 1 (monitorRun 1800086400) noticedPackage rfl mem_cons_self (by decide))).step
      (.lease 1 (monitorRun 1800086400) noticedPackage noticedKey _ rfl (by decide) rfl)
  have hnotified := (hagain.step (.fetch 1 _ noticedPackage 1 (noticedRows ["a", "b"]) rfl)).step
    (.finish 1 _ noticedPackage 1 _ (noticedContext 1800086400) rfl (by decide) (Nat.le_refl _))
  exact ⟨_, hnotified, monitor_reliable hnotified, by decide, by decide⟩

end Bidding.Monitor
