import Bidding.Foundations.Closure
import Bidding.Foundations.Scalar

/-!
# Packages after their sources

A rebid package names the package it is a rebid of. The server writes the packages of a batch in the order of the client,
except that one whose source is in the batch waits for it. What is left when a pass writes nothing goes in circles.
-/

namespace Bidding

open Foundations Relation List

/-- An item of a batch: an object with its fields, or a value that is none. -/
inductive IncomingItem where
  | object (fields : Fields)
  | other (value : Scalar)
  deriving DecidableEq

namespace IncomingItem

variable (item : IncomingItem)

def get (key : String) : Scalar :=
  match item with
  | object fields => fields.getValue key
  | other _ => .none

/-- What `incoming_ids` has of an item. -/
def incomingId? : Option String := if (item.get "id").truthy then some (item.get "id").text else none

/-- `str(item.get("id") or "").strip()`. -/
def recordId : String := (item.get "id").orEmptyText

/-- `str(item.get("rebidFromPackageId") or item.get("rebid_from_package_id") or "").strip()`. -/
def sourceId : String :=
  if (item.get "rebidFromPackageId").truthy then (item.get "rebidFromPackageId").orEmptyText
  else (item.get "rebid_from_package_id").orEmptyText

end IncomingItem

/-- The lists of the loop: what is ordered, the ids of it, and what remains. -/
structure PackageOrder where
  ordered : List IncomingItem
  emitted : List String
  remaining : List IncomingItem

variable (incoming : List String)

def waits (emitted : List String) (item : IncomingItem) : Bool :=
  item.sourceId ≠ "" && item.sourceId ∈ incoming && item.sourceId ∉ emitted

def orderItem (acc : PackageOrder) (item : IncomingItem) : PackageOrder :=
  if waits incoming acc.emitted item then { acc with remaining := acc.remaining ++ [item] }
  else
    { acc with
      ordered := acc.ordered ++ [item]
      emitted := if item.recordId = "" then acc.emitted else acc.emitted ++ [item.recordId] }

/-- One pass, and whether there is a next one. -/
def orderPass (acc : PackageOrder) : PackageOrder × Bool :=
  let next := acc.remaining.foldl (orderItem incoming) { acc with remaining := [] }
  if next.ordered.length = acc.ordered.length then
    ({ next with ordered := next.ordered ++ next.remaining, remaining := [] }, false)
  else (next, true)

variable (items : List IncomingItem)

def incomingIds : List String := items.filterMap (·.incomingId?)

def orderPackageDependencies : List IncomingItem :=
  (saturate (orderPass (incomingIds items)) (items.length + 1) ⟨[], [], items⟩).ordered

/-- An item names another one of the batch as its source. -/
def Names (x y : IncomingItem) : Prop := x ∈ items ∧ y ∈ items ∧ x.sourceId ≠ "" ∧ x.sourceId = y.recordId

/-- An item lies on a cycle of sources or depends on one. -/
def BehindCycle (x : IncomingItem) : Prop := ∃ y, ReflTransGen (Names items) x y ∧ TransGen (Names items) y y

/-- In an order of the batch every item with a source in it comes after a source, unless it is behind a cycle. -/
def AfterSources (result : List IncomingItem) : Prop :=
  ∀ before x after, result = before ++ x :: after → x.sourceId ≠ "" → x.sourceId ∈ items.map (·.recordId) →
    x.sourceId ∈ before.map (·.recordId) ∨ BehindCycle items x

/-- An item with the id stands in the list, and what it waits for stands before it, and so on. -/
inductive Led : List IncomingItem → String → Prop
  | intro {seen before after : List IncomingItem} {x : IncomingItem} {s : String} (hseen : seen = before ++ x :: after)
      (hid : x.recordId = s) (hsource : x.sourceId ≠ "" → x.sourceId ∈ incoming → Led before x.sourceId) : Led seen s

/-- A source that is the id of an item only without the blanks around it stands before, unless a cycle is in the way. -/
def SourcesStand : Prop :=
  ∀ before x after, items = before ++ x :: after → x.sourceId ≠ "" → x.sourceId ∈ items.map (·.recordId) →
    x.sourceId ∈ incomingIds items ∨ Led (incomingIds items) before x.sourceId ∨ BehindCycle items x

/-! ## One pass -/

variable {incoming} {items} {acc : PackageOrder} {x : IncomingItem}

theorem orderItem_of_waits (h : waits incoming acc.emitted x = true) :
    orderItem incoming acc x = { acc with remaining := acc.remaining ++ [x] } := if_pos h

theorem orderItem_of_ready (h : waits incoming acc.emitted x = false) : orderItem incoming acc x =
      { acc with
        ordered := acc.ordered ++ [x]
        emitted := if x.recordId = "" then acc.emitted else acc.emitted ++ [x.recordId] } :=
  if_neg (by simp [h])

theorem foldl_orderItem (incoming : List String) (l : List IncomingItem) (acc : PackageOrder) : ∃ gone kept,
    (l.foldl (orderItem incoming) acc).ordered = acc.ordered ++ gone ∧
      (l.foldl (orderItem incoming) acc).remaining = acc.remaining ++ kept ∧ (gone ++ kept).Perm l ∧
      (gone = [] → (l.foldl (orderItem incoming) acc).emitted = acc.emitted ∧
        ∀ item ∈ l, waits incoming acc.emitted item = true) := by
  induction l generalizing acc with
  | nil => exact ⟨[], [], by simp⟩
  | cons item l ih =>
    obtain ⟨gone, kept, hgone, hkept, hperm, hidle⟩ := ih (orderItem incoming acc item)
    rw [foldl_cons, hgone, hkept]
    cases hwaits : waits incoming acc.emitted item with
    | true =>
      rw [orderItem_of_waits hwaits] at hidle ⊢
      refine ⟨gone, item :: kept, rfl, by simp, perm_middle.trans (hperm.cons item), fun hnone => ?_⟩
      exact ⟨(hidle hnone).1, forall_mem_cons.mpr ⟨hwaits, (hidle hnone).2⟩⟩
    | false =>
      rw [orderItem_of_ready hwaits]
      exact ⟨item :: gone, kept, by simp, rfl, hperm.cons item, fun hnone => (by cases hnone)⟩

theorem eq_of_snoc_eq {l before after : List IncomingItem} {y : IncomingItem} (h : l ++ [x] = before ++ y :: after) :
    l = before ∧ x = y ∨ ∃ rest, l = before ++ y :: rest := by
  rcases eq_nil_or_concat after with rfl | ⟨rest, last, rfl⟩
  · obtain ⟨hl, hx⟩ := append_inj' h rfl
    exact .inl ⟨hl, singleton_injective hx⟩
  · rw [concat_eq_append, ← cons_append, ← append_assoc] at h
    exact .inr ⟨rest, (append_inj' h rfl).1⟩

/-- What the first pass has made of the first items of a batch. -/
def firstPass (items seen : List IncomingItem) : PackageOrder :=
  seen.foldl (orderItem (incomingIds items)) ⟨[], [], []⟩

theorem firstPass_snoc (seen : List IncomingItem) (x : IncomingItem) :
    firstPass items (seen ++ [x]) = orderItem (incomingIds items) (firstPass items seen) x := foldl_append ..

/-- The ids emitted are those of what is ordered, what remains has its source in the batch, and what is ordered comes
after its source or was met in the first pass. -/
structure PackageOrder.Sound (items : List IncomingItem) (acc : PackageOrder) : Prop where
  emitted : ∀ s, s ∈ acc.emitted ↔ s ≠ "" ∧ s ∈ acc.ordered.map (·.recordId)
  remaining : ∀ x ∈ acc.remaining, x.sourceId ≠ "" ∧ x.sourceId ∈ incomingIds items
  placed : ∀ before x after, acc.ordered = before ++ x :: after → x.sourceId ≠ "" →
    x.sourceId ∈ before.map (·.recordId) ∨ x.sourceId ∉ incomingIds items ∧
      ∃ seen rest, items = seen ++ x :: rest ∧ before = (firstPass items seen).ordered

theorem PackageOrder.Sound.item (h : acc.Sound items) (hx : x.sourceId ∉ incomingIds items →
      ∃ seen rest, items = seen ++ x :: rest ∧ acc.ordered = (firstPass items seen).ordered) :
    (orderItem (incomingIds items) acc x).Sound items := by
  cases hwaits : waits (incomingIds items) acc.emitted x with
  | true =>
    rw [orderItem_of_waits hwaits]
    refine ⟨h.emitted, fun y hy => ?_, h.placed⟩
    simp only [waits, Bool.and_eq_true, decide_eq_true_eq] at hwaits
    rcases mem_append.mp hy with hy | hy
    · exact h.remaining y hy
    · rw [mem_singleton.mp hy]
      exact hwaits.1
  | false =>
    rw [orderItem_of_ready hwaits]
    refine ⟨fun s => ?_, h.remaining, fun before y after hsplit hsource => ?_⟩
    · have hemitted := h.emitted s
      simp only [map_append, mem_append, map_cons, map_nil, mem_singleton]
      split <;> grind
    · rcases eq_of_snoc_eq hsplit with ⟨rfl, rfl⟩ | ⟨rest, hordered⟩
      · by_cases hin : x.sourceId ∈ incomingIds items
        · have hemitted : x.sourceId ∈ acc.emitted := by simpa [waits, hsource, hin] using hwaits
          exact .inl ((h.emitted _).mp hemitted).2
        · exact .inr ⟨hin, hx hin⟩
      · exact h.placed before y rest hordered hsource

theorem sound_firstPass {seen rest : List IncomingItem} (h : items = seen ++ rest) : (firstPass items seen).Sound items := by
  induction seen using List.reverseRecOn generalizing rest with
  | nil => exact ⟨by simp [firstPass], fun _ hx => (by cases hx), fun _ _ _ hsplit => (by simp [firstPass] at hsplit)⟩
  | append_singleton seen x ih =>
    rw [firstPass_snoc]
    exact (ih (h.trans (append_assoc ..))).item fun _ => ⟨seen, rest, by simp [h], rfl⟩

theorem led_iff (seen : List IncomingItem) {s : String} (hs : s ≠ "") :
    Led (incomingIds items) seen s ↔ s ∈ (firstPass items seen).emitted := by
  induction seen using List.reverseRecOn generalizing s with
  | nil =>
    refine ⟨?_, fun h => by cases h⟩
    rintro ⟨hseen, -, -⟩
    simp at hseen
  | append_singleton seen x ih =>
    have hlonger : Led (incomingIds items) seen s → Led (incomingIds items) (seen ++ [x]) s := by
      rintro ⟨rfl, hid, hsource⟩
      exact ⟨append_assoc .., hid, hsource⟩
    rw [firstPass_snoc]
    cases hwaits : waits (incomingIds items) (firstPass items seen).emitted x with
    | true =>
      rw [orderItem_of_waits hwaits, ← ih hs]
      refine ⟨?_, hlonger⟩
      rintro ⟨hseen, hid, hsource⟩
      rcases eq_of_snoc_eq hseen with ⟨rfl, rfl⟩ | ⟨rest, hrest⟩
      · simp only [waits, Bool.and_eq_true, decide_eq_true_eq] at hwaits
        exact absurd ((ih hwaits.1.1).mp (hsource hwaits.1.1 hwaits.1.2)) hwaits.2
      · exact ⟨hrest, hid, hsource⟩
    | false =>
      have hmem : s ∈ (orderItem (incomingIds items) (firstPass items seen) x).emitted ↔
          s ∈ (firstPass items seen).emitted ∨ s = x.recordId := by
        rw [orderItem_of_ready hwaits]
        simp only
        split <;> grind
      rw [hmem, ← ih hs]
      constructor
      · rintro ⟨hseen, hid, hsource⟩
        rcases eq_of_snoc_eq hseen with ⟨rfl, rfl⟩ | ⟨rest, hrest⟩
        · exact .inr hid.symm
        · exact .inl ⟨hrest, hid, hsource⟩
      · rintro (hled | rfl)
        · exact hlonger hled
        · refine ⟨rfl, rfl, fun hsource hin => (ih hsource).mpr ?_⟩
          simpa [waits, hsource, hin] using hwaits

/-! ## The loop -/

theorem orderPass_cases (incoming : List String) (acc : PackageOrder) :
    ∃ next : PackageOrder, next = acc.remaining.foldl (orderItem incoming) { acc with remaining := [] } ∧
      (next.ordered ++ next.remaining).Perm (acc.ordered ++ acc.remaining) ∧ acc.ordered <+: next.ordered ∧
      (orderPass incoming acc = (next, true) ∧ next.remaining.length < acc.remaining.length ∨
        orderPass incoming acc = (⟨next.ordered ++ next.remaining, next.emitted, []⟩, false) ∧
          ∀ x ∈ next.remaining, x.sourceId ∉ next.emitted) := by
  refine ⟨_, rfl, ?_⟩
  obtain ⟨gone, kept, hgone, hkept, hperm, hidle⟩ := foldl_orderItem incoming acc.remaining { acc with remaining := [] }
  unfold orderPass
  simp only [hgone, hkept, nil_append, append_assoc]
  refine ⟨hperm.append_left acc.ordered, prefix_append .., ?_⟩
  by_cases hnone : gone = []
  · obtain ⟨hemitted, hall⟩ := hidle hnone
    refine .inr ⟨if_pos (by simp [hnone]), fun x hx => ?_⟩
    have hwaits := hall x (hperm.subset (mem_append_right _ hx))
    simp only [waits, Bool.and_eq_true, decide_eq_true_eq] at hwaits
    rw [hemitted]
    exact hwaits.2
  · have hlength := hperm.length_eq
    have hpos := length_pos_iff.mpr hnone
    simp only [length_append] at hlength
    exact .inl ⟨if_neg (by simp [hnone]), by omega⟩

theorem order_ends (items : List IncomingItem) : LoopEnds (orderPass (incomingIds items)) ⟨[], [], items⟩
    (saturate (orderPass (incomingIds items)) (items.length + 1) ⟨[], [], items⟩) := by
  apply saturate_loopEnds _ (fun acc => acc.remaining.length)
  · intro acc h
    obtain ⟨next, -, -, -, ⟨heq, hlt⟩ | ⟨heq, -⟩⟩ := orderPass_cases (incomingIds items) acc
    · rwa [heq]
    · rw [heq] at h
      cases h
  · exact Nat.lt_succ_self _

/-- What every pass keeps of the lists it makes. -/
structure PackageOrder.Reached (items : List IncomingItem) (acc : PackageOrder) : Prop extends acc.Sound items where
  perm : (acc.ordered ++ acc.remaining).Perm items
  starts : (firstPass items items).ordered <+: acc.ordered

theorem exists_last (items : List IncomingItem) : ∃ acc : PackageOrder, acc.Reached items ∧
    orderPackageDependencies items = acc.ordered ++ acc.remaining ∧ ∀ x ∈ acc.remaining, x.sourceId ∉ acc.emitted := by
  let after (acc : PackageOrder) := acc.remaining.foldl (orderItem (incomingIds items)) { acc with remaining := [] }
  have hstart : (after ⟨[], [], items⟩).Reached items := by
    obtain ⟨next, rfl, hperm, -⟩ := orderPass_cases (incomingIds items) ⟨[], [], items⟩
    exact ⟨sound_firstPass (append_nil items).symm, hperm, prefix_refl _⟩
  have hagain : ∀ acc, (after acc).Reached items → (orderPass (incomingIds items) acc).2 = true →
      (after (orderPass (incomingIds items) acc).1).Reached items := by
    intro acc h hup
    obtain ⟨next, hnext, -, -, ⟨heq, -⟩ | ⟨heq, -⟩⟩ := orderPass_cases (incomingIds items) acc
    · obtain rfl : next = after acc := hnext
      obtain ⟨last, hlast, hperm, hprefix, -⟩ := orderPass_cases (incomingIds items) (after acc)
      rw [heq]
      obtain rfl : last = after (after acc) := hlast
      refine ⟨foldl_inv _ (PackageOrder.Sound items) (after acc).remaining (fun acc x hx hacc => ?_)
        ⟨h.emitted, fun _ hx => (by cases hx), h.placed⟩, hperm.trans h.perm, h.starts.trans hprefix⟩
      exact hacc.item fun hout => absurd (h.remaining x hx).2 hout
    · rw [heq] at hup
      cases hup
  obtain ⟨acc, hreached, hidle, heq⟩ := (order_ends items).last_of (fun acc => (after acc).Reached items) hagain hstart
  obtain ⟨next, rfl, -, -, ⟨hup, -⟩ | ⟨hlast, hout⟩⟩ := orderPass_cases (incomingIds items) acc
  · rw [hup] at hidle
    cases hidle
  · exact ⟨_, hreached, by rw [orderPackageDependencies, heq, hlast], hout⟩

theorem recordId_of_incomingId {y : IncomingItem} (h : y.incomingId? = some x.sourceId) : y.recordId = x.sourceId := by
  have hstripped : pyStrip x.sourceId = x.sourceId := by
    unfold IncomingItem.sourceId Scalar.orEmptyText
    split
    · exact pyStrip_pyStrip _
    · split
      · exact pyStrip_pyStrip _
      · rfl
  unfold IncomingItem.incomingId? at h
  split at h
  · rename_i htruthy
    rw [IncomingItem.recordId, Scalar.orEmptyText, if_pos htruthy, Option.some.inj h, hstripped]
  · cases h

/-- What remains when a pass orders nothing leads from source to source among what remains. -/
theorem behindCycle_of_remaining (h : acc.Reached items) (hout : ∀ x ∈ acc.remaining, x.sourceId ∉ acc.emitted)
    (hx : x ∈ acc.remaining) : BehindCycle items x := by
  refine exists_cycle (fun x hx => ?_) hx
  obtain ⟨hsource, hin⟩ := h.remaining x hx
  obtain ⟨y, hy, hid⟩ := mem_filterMap.mp hin
  have hrecord := recordId_of_incomingId hid
  rcases mem_append.mp (h.perm.mem_iff.mpr hy) with hordered | hremaining
  · exact absurd ((h.emitted _).mpr ⟨hsource, mem_map.mpr ⟨y, hordered, hrecord⟩⟩) (hout x hx)
  · exact ⟨y, hremaining, h.perm.subset (mem_append_right _ hx), hy, hsource, hrecord.symm⟩

/-- The ordering ends with the same items, and every source stands before its rebid exactly when the sources can be found. -/
theorem order_sources (items : List IncomingItem) : LoopEnds (orderPass (incomingIds items)) ⟨[], [], items⟩
      (saturate (orderPass (incomingIds items)) (items.length + 1) ⟨[], [], items⟩) ∧
    (orderPackageDependencies items).Perm items ∧
    (AfterSources items (orderPackageDependencies items) ↔ SourcesStand items) := by
  obtain ⟨acc, hreached, heq, hout⟩ := exists_last items
  rw [heq]
  refine ⟨order_ends items, hreached.perm, fun h before x after hsplit hsource hin => ?_,
    fun h before x after hsplit hsource hin => ?_⟩
  · by_cases hincoming : x.sourceId ∈ incomingIds items
    · exact .inl hincoming
    -- the first pass orders the item in its turn
    have hready : waits (incomingIds items) (firstPass items before).emitted x = false := by simp [waits, hincoming]
    have hfold : firstPass items items =
        after.foldl (orderItem (incomingIds items)) (orderItem (incomingIds items) (firstPass items before) x) :=
      (congrArg (firstPass items) hsplit).trans (foldl_append ..)
    obtain ⟨gone, -, hgone, -⟩ := foldl_orderItem (incomingIds items) after
      (orderItem (incomingIds items) (firstPass items before) x)
    obtain ⟨later, hlater⟩ := hreached.starts
    rw [hfold, hgone, orderItem_of_ready hready] at hlater
    rcases h (firstPass items before).ordered x (gone ++ later ++ acc.remaining) (by simp [← hlater]) hsource hin
      with hbefore | hcycle
    · exact .inr (.inl ((led_iff before hsource).mpr (((sound_firstPass hsplit).emitted _).mpr ⟨hsource, hbefore⟩)))
    · exact .inr (.inr hcycle)
  · have hwhere : x ∈ acc.remaining ∨ ∃ rest, acc.ordered = before ++ x :: rest := by
      rcases append_eq_append_iff.mp hsplit with ⟨middle, -, hrest⟩ | ⟨middle, hordered, hrest⟩
      · exact .inl (by simp [hrest])
      cases middle with
      | nil =>
        rw [nil_append] at hrest
        exact .inl (by simp [← hrest])
      | cons y middle =>
        obtain ⟨rfl, -⟩ := List.cons.inj hrest
        exact .inr ⟨middle, hordered⟩
    rcases hwhere with hremaining | ⟨rest, hordered⟩
    · exact .inr (behindCycle_of_remaining hreached hout hremaining)
    rcases hreached.placed before x rest hordered hsource with hbefore | ⟨hincoming, seen, unseen, hitems, rfl⟩
    · exact .inl hbefore
    rcases h seen x unseen hitems hsource hin with hyes | hled | hcycle
    · exact absurd hyes hincoming
    · exact .inl (((sound_firstPass hitems).emitted _).mp ((led_iff seen hsource).mp hled)).2
    · exact .inr hcycle

def rebidBeforeSource : List IncomingItem :=
  [.object (.ofList [("id", .str "b"), ("rebidFromPackageId", .str "a")]), .object (.ofList [("id", .str " a")])]

/-- A rebid whose source has blanks around its id is written first. -/
theorem blank_id_not_source : ¬AfterSources rebidBeforeSource (orderPackageDependencies rebidBeforeSource) := by
  intro h
  rcases h [] (.object (.ofList [("id", .str "b"), ("rebidFromPackageId", .str "a")])) [.object (.ofList [("id", .str " a")])] (by decide) (by decide) (by decide) with hnone | ⟨y, -, hcycle⟩
  · cases hnone
  obtain ⟨z, -, hz, -, -, hlast⟩ := TransGen.tail'_iff.mp hcycle
  obtain ⟨w, ⟨hy, -, hfirst, -⟩, -⟩ := TransGen.head'_iff.mp hcycle
  simp only [rebidBeforeSource, mem_cons, not_mem_nil, or_false] at hy hz
  rcases hy with rfl | rfl
  · rcases hz with rfl | rfl <;> exact absurd hlast (by decide)
  · exact absurd hfirst (by decide)

end Bidding
