import Mathlib.Data.List.Nodup
import Mathlib.Data.List.Induction

/-!
# Insertion-ordered dictionaries

`Dict κ α` is a JavaScript object or `Map` or a Python `dict`: keys in the order of first insertion, overwritten in place
and different by construction. `get₂`, `set₂`, … stand for objects of objects.
-/

namespace Foundations

open List
open Option hiding any_eq_true

/-- Two texts name a record: a table and an id. -/
instance lawfulBEq_textPair : LawfulBEq (String × String) := inferInstance

instance lawfulBEq_chars : LawfulBEq (List Char) := inferInstance

structure Dict (κ α : Type) where
  entries : List (κ × α)
  nodupKeys : (entries.map Prod.fst).Nodup

namespace Dict

variable {κ α β : Type} [DecidableEq κ] {v : α}

instance [DecidableEq α] : DecidableEq (Dict κ α) := fun d e =>
  if h : d.entries = e.entries then
    isTrue (by cases d; cases e; simp_all)
  else
    isFalse (by rintro rfl; exact h rfl)

def empty : Dict κ α := ⟨[], nodup_nil⟩

instance : Inhabited (Dict κ α) := ⟨empty⟩

/-- The value stored under `k` in a list of entries. -/
def lookup (k : κ) : List (κ × α) → Option α
  | [] => none
  | e :: l => if e.1 = k then some e.2 else lookup k l

/-- Overwrite the entry of `k` in place, or append one. -/
def put (k : κ) (v : α) : List (κ × α) → List (κ × α)
  | [] => [(k, v)]
  | e :: l => if e.1 = k then (k, v) :: l else e :: put k v l

theorem lookup_eq_none_iff (k : κ) (l : List (κ × α)) : lookup k l = none ↔ k ∉ l.map Prod.fst := by
  induction l with
  | nil => simp [lookup]
  | cons e l ih =>
    by_cases h : e.1 = k
    · simp [lookup, h]
    · simp [lookup, h, ih, Ne.symm h]

theorem mem_of_lookup_eq_some {k : κ} {l : List (κ × α)} (h : lookup k l = some v) : (k, v) ∈ l := by
  induction l with
  | nil => simp [lookup] at h
  | cons e l ih =>
    by_cases he : e.1 = k
    · simp only [lookup, if_pos he, some.injEq] at h
      subst he; subst h
      exact mem_cons_self
    · simp only [lookup, if_neg he] at h
      exact mem_cons_of_mem _ (ih h)

theorem lookup_put (k k' : κ) (v : α) (l : List (κ × α)) : lookup k' (put k v l) = if k' = k then some v else lookup k' l := by
  induction l with
  | nil => by_cases h : k = k' <;> simp [put, lookup, h, Ne.symm]
  | cons e l ih =>
    by_cases he : e.1 = k
    · by_cases hk : k' = k
      · simp [put, lookup, he, hk]
      · simp [put, lookup, he, hk, Ne.symm hk]
    · by_cases he' : e.1 = k'
      · have hk : k' ≠ k := by rintro rfl; exact he he'
        simp [put, lookup, he', hk]
      · simp [put, lookup, he, he', ih]

theorem keys_put (k : κ) (v : α) (l : List (κ × α)) : (put k v l).map Prod.fst =
    if k ∈ l.map Prod.fst then l.map Prod.fst else l.map Prod.fst ++ [k] := by
  induction l with
  | nil => simp [put]
  | cons e l ih =>
    by_cases he : e.1 = k
    · simp [put, he]
    · simp only [put, if_neg he, map_cons, ih, mem_cons, Ne.symm he, false_or]
      split <;> simp

theorem nodup_put {k : κ} {l : List (κ × α)} (h : (l.map Prod.fst).Nodup) : ((put k v l).map Prod.fst).Nodup := by
  rw [keys_put]
  split
  · exact h
  rename_i hk
  exact nodup_append.mpr ⟨h, nodup_singleton k, by
    intro a ha b hb
    rw [mem_singleton] at hb
    rintro rfl
    exact hk (hb ▸ ha)⟩

theorem lookup_filter (p : κ → Bool) (k : κ) (l : List (κ × α)) :
    lookup k (l.filter fun e => p e.1) = if p k then lookup k l else none := by
  induction l with
  | nil => simp [lookup]
  | cons e l ih =>
    by_cases he : e.1 = k
    · subst he
      by_cases hp : p e.1 <;> simp [lookup, hp, ih]
    · by_cases hp : p e.1 <;> simp [lookup, hp, he, ih]

omit [DecidableEq κ] in
theorem nodup_filter {p : κ → Bool} {l : List (κ × α)} (h : (l.map Prod.fst).Nodup) :
    ((l.filter fun e => p e.1).map Prod.fst).Nodup :=
  h.sublist (filter_sublist.map _)

variable (d : Dict κ α)

variable (k : κ)

/-- `d[k]`. -/
def get? : Option α := lookup k d.entries

/-- `d[k] = v`. -/
def set (v : α) : Dict κ α := ⟨put k v d.entries, nodup_put d.nodupKeys⟩

/-- Keep the entries whose key passes `p`. -/
def filterKeys (p : κ → Bool) : Dict κ α :=
  ⟨d.entries.filter fun e => p e.1, nodup_filter d.nodupKeys⟩

/-- `delete d[k]`. -/
def erase : Dict κ α := d.filterKeys fun k' => k' ≠ k

def keys : List κ := d.entries.map Prod.fst

def values : List α := d.entries.map Prod.snd

/-- Whether `k` has an entry. -/
def contains : Bool := (d.get? k).isSome

def isEmpty (d : Dict κ α) : Bool := d.entries.isEmpty

/-- Keep the entries that pass `p`. -/
def filterEntries (p : κ → α → Bool) : Dict κ α :=
  ⟨d.entries.filter fun e => p e.1 e.2, d.nodupKeys.sublist (filter_sublist.map _)⟩

/-- Apply `f` to every entry, keeping the keys and their order. -/
def mapEntries (f : κ → α → β) (d : Dict κ α) : Dict κ β :=
  ⟨d.entries.map fun e => (e.1, f e.1 e.2), by
    have : (d.entries.map fun e => (e.1, f e.1 e.2)).map Prod.fst = d.entries.map Prod.fst := by simp
    rw [this]; exact d.nodupKeys⟩

/-- Apply `f` to every value, keeping the keys and their order. -/
def map (f : α → β) (d : Dict κ α) : Dict κ β := d.mapEntries fun _ v => f v

/-- `{ ...base, ...upper }`: the entries of `upper` win. -/
def spread (base upper : Dict κ α) : Dict κ α := upper.entries.foldl (fun d e => d.set e.1 e.2) base

variable (l : List (κ × α))

def ofList : Dict κ α := l.foldl (fun d e => d.set e.1 e.2) empty

@[simp] theorem get?_empty : (empty : Dict κ α).get? k = none := rfl

theorem get?_set (k k' : κ) (v : α) : (d.set k v).get? k' = if k' = k then some v else d.get? k' := lookup_put k k' v d.entries

@[simp] theorem get?_set_self (v : α) : (d.set k v).get? k = some v := by simp [get?_set]

theorem get?_set_of_ne {k k' : κ} (v : α) (h : k' ≠ k) : (d.set k v).get? k' = d.get? k' := by simp [get?_set, h]

theorem entries_set_of_fresh {k : κ} (v : α) (h : d.get? k = none) : (d.set k v).entries = d.entries ++ [(k, v)] := by
  obtain ⟨l, hl⟩ := d
  unfold get? at h
  unfold set
  dsimp only at h ⊢
  clear hl
  induction l with
  | nil => rfl
  | cons e l ih =>
    rw [lookup] at h
    split at h
    · cases h
    · rename_i hne
      rw [put, if_neg hne, ih h, cons_append]

theorem get?_filterKeys (p : κ → Bool) (k : κ) :
    (d.filterKeys p).get? k = if p k then d.get? k else none := lookup_filter p k d.entries

theorem get?_erase (k k' : κ) : (d.erase k).get? k' = if k' = k then none else d.get? k' := by
  simp only [erase, get?_filterKeys, decide_eq_true_eq, ne_eq, ite_not]

@[simp] theorem get?_erase_self : (d.erase k).get? k = none := by simp [get?_erase]

theorem get?_erase_of_ne {k k' : κ} (h : k' ≠ k) : (d.erase k).get? k' = d.get? k' := by simp [get?_erase, h]

theorem mem_entries_iff (v : α) : (k, v) ∈ d.entries ↔ d.get? k = some v := by
  refine ⟨fun h => ?_, mem_of_lookup_eq_some⟩
  have hnd := d.nodupKeys
  unfold get?
  generalize d.entries = l at h hnd
  induction l with
  | nil => cases h
  | cons e l ih =>
    rw [map_cons, nodup_cons] at hnd
    rcases mem_cons.mp h with rfl | h'
    · simp [lookup]
    have hne : e.1 ≠ k := by
      rintro rfl
      exact hnd.1 (mem_map.mpr ⟨_, h', rfl⟩)
    simp [lookup, hne, ih h' hnd.2]

theorem mem_keys_iff : k ∈ d.keys ↔ ∃ v, d.get? k = some v := by
  rw [← isSome_iff_exists, ← ne_none_iff_isSome]
  unfold get? keys
  rw [ne_eq, lookup_eq_none_iff, not_not]

theorem mem_values_iff (v : α) : v ∈ d.values ↔ ∃ k, d.get? k = some v := by
  simp only [values, List.mem_map, Prod.exists, exists_eq_right, mem_entries_iff]

theorem isEmpty_iff : d.isEmpty = true ↔ ∀ k, d.get? k = none := by
  obtain ⟨l, hl⟩ := d
  cases l with
  | nil => simp [isEmpty, get?, lookup]
  | cons e l =>
    simp only [isEmpty, isEmpty_cons, Bool.false_eq_true, false_iff, not_forall]
    exact ⟨e.1, by simp [get?, lookup]⟩

theorem get?_filterEntries (p : κ → α → Bool) (k : κ) : (d.filterEntries p).get? k = (d.get? k).filter (p k) := by
  obtain ⟨l, hl⟩ := d
  simp only [get?, filterEntries]
  induction l with
  | nil => rfl
  | cons e l ih =>
    rw [map_cons, nodup_cons] at hl
    by_cases he : e.1 = k
    · subst he
      by_cases hp : p e.1 e.2 = true
      · simp [lookup, hp, Option.filter]
      have hnone : lookup e.1 (l.filter fun e => p e.1 e.2) = none := by
        rw [lookup_eq_none_iff]
        exact fun h => hl.1 ((filter_sublist.map _).subset h)
      simp [lookup, hp, Option.filter, hnone]
    · by_cases hp : p e.1 e.2 = true <;> simp [lookup, hp, he, ih hl.2]

theorem get?_mapEntries (f : κ → α → β) (d : Dict κ α) (k : κ) : (d.mapEntries f).get? k = (d.get? k).map (f k) := by
  obtain ⟨l, hl⟩ := d
  simp only [get?, mapEntries]
  clear hl
  induction l with
  | nil => rfl
  | cons e l ih =>
    by_cases h : e.1 = k
    · subst h; simp [lookup]
    · simp [lookup, h, ih]

theorem get?_map (f : α → β) (d : Dict κ α) (k : κ) : (d.map f).get? k = (d.get? k).map f :=
  get?_mapEntries _ d k

theorem get?_foldl_set (d : Dict κ α) (k : κ) :
    (l.foldl (fun d e => d.set e.1 e.2) d).get? k = (lookup k l.reverse).or (d.get? k) := by
  induction l generalizing d with
  | nil => simp [lookup]
  | cons e l ih =>
    rw [foldl_cons, ih, reverse_cons, get?_set]
    have happ : ∀ l' : List (κ × α), lookup k (l' ++ [e]) = (lookup k l').or (if k = e.1 then some e.2 else none) := by
      intro l'
      induction l' with
      | nil => simp [lookup, eq_comm]
      | cons e' l' ih' => by_cases h : e'.1 = k <;> simp [lookup, h, ih']
    rw [happ]
    cases lookup k l.reverse <;> by_cases h : k = e.1 <;> simp [h]

theorem lookup_reverse_of_nodup {l : List (κ × α)} (h : (l.map Prod.fst).Nodup) (k : κ) : lookup k l.reverse = lookup k l := by
  have hr : (l.reverse.map Prod.fst).Nodup := by rw [map_reverse]; exact nodup_reverse.mpr h
  apply Option.ext
  intro v
  have h1 := mem_entries_iff (⟨l, h⟩ : Dict κ α) k v
  have h2 := mem_entries_iff (⟨l.reverse, hr⟩ : Dict κ α) k v
  simp only [mem_reverse] at h2
  exact h2.symm.trans h1

theorem get?_spread (base upper : Dict κ α) (k : κ) : (base.spread upper).get? k = (upper.get? k).or (base.get? k) := by
  unfold spread
  rw [get?_foldl_set, lookup_reverse_of_nodup upper.nodupKeys]
  rfl

theorem put_of_lookup {k : κ} {l : List (κ × α)} (h : lookup k l = some v) : put k v l = l := by
  induction l with
  | nil => cases h
  | cons e l ih =>
    rw [lookup] at h
    rw [put]
    split
    · rename_i he
      rw [if_pos he, some.injEq] at h
      rw [← he, ← h]
    · rename_i he
      rw [if_neg he] at h
      rw [ih h]

theorem set_of_get? {k : κ} (h : d.get? k = some v) : d.set k v = d := by
  obtain ⟨l, hl⟩ := d
  unfold set
  congr 1
  exact put_of_lookup h

theorem entries_foldl_set (d : Dict κ α) (hl : (l.map Prod.fst).Nodup) (hfresh : ∀ e ∈ l, d.get? e.1 = none) :
    (l.foldl (fun d e => d.set e.1 e.2) d).entries = d.entries ++ l := by
  induction l generalizing d with
  | nil => simp
  | cons e l ih =>
    rw [map_cons, nodup_cons] at hl
    rw [foldl_cons, ih _ hl.2, entries_set_of_fresh d e.2 (hfresh e mem_cons_self), append_assoc]
    · rfl
    · intro e' he'
      have hne : e'.1 ≠ e.1 := by
        intro heq
        exact hl.1 (mem_map.mpr ⟨e', he', heq⟩)
      rw [get?_set_of_ne d e.2 hne]
      exact hfresh e' (mem_cons_of_mem e he')

theorem ofList_entries : ofList d.entries = d := by
  have hentries : (ofList d.entries).entries = d.entries :=
    entries_foldl_set d.entries empty d.nodupKeys fun _ _ => rfl
  obtain ⟨l, hl⟩ := d
  cases hd : ofList l with
  | mk l' hl' =>
    rw [hd] at hentries
    dsimp only at hentries
    subst hentries
    rfl

theorem contains_iff : d.contains k = true ↔ ∃ v, d.get? k = some v := by rw [contains, isSome_iff_exists]

theorem get?_ofList_filterMap (f : κ → Option β) (g : β → α) (l : List κ) (k : κ) :
    (ofList (l.filterMap fun key => (f key).map fun v => (key, g v))).get? k = if k ∈ l then (f k).map g else none := by
  induction l using List.reverseRecOn with
  | nil => rfl
  | append_singleton l key ih =>
    rw [ofList] at ih ⊢
    rw [filterMap_append, foldl_append]
    cases hf : f key with
    | none =>
      have hnone : List.filterMap (fun key => (f key).map fun v => (key, g v)) [key] = [] := by simp [hf]
      rw [hnone, foldl_nil, ih]
      by_cases hk : k = key
      · subst hk
        simp [hf]
      · simp [hk]
    | some v =>
      have hone : List.filterMap (fun key => (f key).map fun v => (key, g v)) [key] = [(key, g v)] := by simp [hf]
      rw [hone, foldl_cons, foldl_nil, get?_set, ih]
      by_cases hk : k = key
      · subst hk
        simp [hf]
      · simp [hk]

theorem lookup_filterMap (f : κ → α → Option β) (d : Dict κ α) (k : κ) :
    lookup k (d.entries.filterMap fun e => (f e.1 e.2).map fun v => (e.1, v)) = (d.get? k).bind (f k) := by
  obtain ⟨l, hl⟩ := d
  unfold get?
  induction l with
  | nil => rfl
  | cons e l ih =>
    have hnodup := nodup_cons.mp hl
    have hrest := ih hnodup.2
    rw [filterMap_cons]
    by_cases hk : e.1 = k
    · subst hk
      have hnone : lookup e.1 l = none := (lookup_eq_none_iff e.1 l).mpr hnodup.1
      rw [hnone] at hrest
      cases hf : f e.1 e.2 with
      | none => simpa [lookup, hf] using hrest
      | some v => simp [lookup, hf]
    · cases hf : f e.1 e.2 with
      | none => simp [lookup, hk, hrest]
      | some v => simp [lookup, hk, hrest]

/-- A fold over a dictionary whose steps change what is seen of a key at that key alone. -/
theorem foldl_entries {σ γ : Type} (f : σ → κ × α → σ) (view : σ → γ) (g : α → γ → γ) (k : κ) (d : Dict κ α)
    (hstep : ∀ s, ∀ e ∈ d.entries, view (f s e) = if e.1 = k then g e.2 (view s) else view s) (s : σ) :
    view (d.entries.foldl f s) = ((d.get? k).map fun v => g v (view s)).getD (view s) := by
  obtain ⟨l, hl⟩ := d
  unfold get?
  induction l generalizing s with
  | nil => rfl
  | cons e l ih =>
    have hnodup := nodup_cons.mp hl
    rw [foldl_cons, ih (f s e) hnodup.2 (fun s e' he => hstep s e' (mem_cons_of_mem e he)), hstep s e mem_cons_self]
    by_cases hk : e.1 = k
    · have hnone : lookup k l = none := (lookup_eq_none_iff k l).mpr (hk ▸ hnodup.1)
      simp [lookup, hnone, hk]
    · simp [lookup, hk]

/-! ## Dictionaries of dictionaries -/

variable {ι : Type} [DecidableEq ι]

variable (d : Dict κ (Dict ι α))

/-- `d?.[t]?.[i]`. -/
def get₂ (t : κ) (i : ι) : Option α := (d.get? t).bind fun r => r.get? i

/-- `d[t] ||= {}; d[t][i] = v`. -/
def set₂ (t : κ) (i : ι) (v : α) : Dict κ (Dict ι α) :=
  d.set t (((d.get? t).getD empty).set i v)

/-- `delete d[t][i]`, when there is a `d[t]`. -/
def erase₂ (t : κ) (i : ι) : Dict κ (Dict ι α) :=
  match d.get? t with
  | none => d
  | some r => d.set t (r.erase i)

/-- `if (d[t] && Object.keys(d[t]).length === 0) delete d[t]`. -/
def dropIfEmpty (t : κ) : Dict κ (Dict ι α) :=
  match d.get? t with
  | none => d
  | some r => if r.isEmpty then d.erase t else d

/-- Keep the inner entries that pass `p`, and the outer keys that still have one. -/
def filter₂ (p : κ → ι → Bool) : Dict κ (Dict ι α) :=
  (d.mapEntries fun t r => r.filterKeys (p t)).filterEntries fun _ r => !r.isEmpty

def hasEntries : Bool := d.values.any fun r => !r.isEmpty

def entries₂ : List (κ × ι × α) :=
  d.entries.flatMap fun e => e.2.entries.map fun f => (e.1, f.1, f.2)

variable (t t' : κ)

@[simp] theorem get₂_empty (t : κ) (i : ι) : (empty : Dict κ (Dict ι α)).get₂ t i = none := rfl

theorem get₂_set (r : Dict ι α) (i : ι) : (d.set t r).get₂ t' i = if t' = t then r.get? i else d.get₂ t' i := by
  unfold get₂
  rw [get?_set]
  split <;> rfl

theorem get₂_erase (i : ι) : (d.erase t).get₂ t' i = if t' = t then none else d.get₂ t' i := by
  unfold get₂
  rw [get?_erase]
  split <;> rfl

theorem get?_getD_empty (t : κ) (i : ι) : ((d.get? t).getD empty).get? i = d.get₂ t i := by
  unfold get₂
  cases d.get? t <;> rfl

theorem get₂_set₂ (i i' : ι) (v : α) : (d.set₂ t i v).get₂ t' i' = if t' = t ∧ i' = i then some v else d.get₂ t' i' := by
  unfold set₂
  rw [get₂_set]
  by_cases ht : t' = t
  · subst ht
    rw [if_pos rfl, get?_set, get?_getD_empty]
    simp
  · simp [ht]

theorem get₂_erase₂ (i i' : ι) : (d.erase₂ t i).get₂ t' i' = if t' = t ∧ i' = i then none else d.get₂ t' i' := by
  unfold erase₂
  cases h : d.get? t with
  | none =>
    by_cases ht : t' = t
    · subst ht; simp [get₂, h]
    · simp [ht]
  | some r =>
    simp only [get₂_set, get?_erase]
    by_cases ht : t' = t
    · subst ht; simp [get₂, h]
    · simp [ht]

@[simp] theorem get₂_dropIfEmpty (i : ι) : (d.dropIfEmpty t).get₂ t' i = d.get₂ t' i := by
  unfold dropIfEmpty
  cases h : d.get? t with
  | none => rfl
  | some r =>
    by_cases he : r.isEmpty = true
    · simp only [he, if_true, get₂_erase]
      split
      · rename_i ht
        subst ht
        simp [get₂, h, (isEmpty_iff r).mp he i]
      · rfl
    · simp [he]

theorem get?_erase₂_of_ne {t t' : κ} (i : ι) (h : t' ≠ t) : (d.erase₂ t i).get? t' = d.get? t' := by
  unfold erase₂
  cases d.get? t with
  | none => rfl
  | some r => exact get?_set_of_ne d _ h

omit [DecidableEq ι] in
theorem get?_dropIfEmpty : (d.dropIfEmpty t).get? t' = if t' = t then (d.get? t).filter fun r => !r.isEmpty else d.get? t' := by
  unfold dropIfEmpty
  by_cases ht : t' = t
  · subst ht
    cases h : d.get? t' with
    | none => simp [h]
    | some r => cases hr : r.isEmpty <;> simp [h, hr, Option.filter]
  · cases h : d.get? t with
    | none => simp [ht]
    | some r => cases hr : r.isEmpty <;> simp [hr, ht, get?_erase]

omit [DecidableEq ι] in
theorem dropIfEmpty_eq_self {t : κ} (h : ∀ r, d.get? t = some r → r.isEmpty = false) : d.dropIfEmpty t = d := by
  unfold dropIfEmpty
  cases hr : d.get? t with
  | none => rfl
  | some r => simp [h r hr]

theorem get₂_filter₂ (p : κ → ι → Bool) (t : κ) (i : ι) : (d.filter₂ p).get₂ t i = if p t i then d.get₂ t i else none := by
  unfold filter₂ get₂
  rw [get?_filterEntries, get?_mapEntries]
  cases h : d.get? t with
  | none => simp
  | some r =>
    by_cases he : (r.filterKeys (p t)).isEmpty = true
    · have hn := (isEmpty_iff _).mp he i
      rw [get?_filterKeys] at hn
      simp [Option.filter, he, hn]
    · simp [Option.filter, he, get?_filterKeys]

theorem mem_entries₂_iff (t : κ) (i : ι) (v : α) : (t, i, v) ∈ d.entries₂ ↔ d.get₂ t i = some v := by
  unfold entries₂ get₂
  constructor
  · intro h
    obtain ⟨⟨t', r⟩, he, hm⟩ := mem_flatMap.mp h
    obtain ⟨⟨i', v'⟩, hf, heq⟩ := mem_map.mp hm
    simp only [Prod.mk.injEq] at heq
    obtain ⟨rfl, rfl, rfl⟩ := heq
    rw [(mem_entries_iff d _ _).mp he]
    exact (mem_entries_iff r _ _).mp hf
  · intro h
    obtain ⟨r, hr, hi⟩ := bind_eq_some_iff.mp h
    exact mem_flatMap.mpr ⟨(t, r), (mem_entries_iff d t r).mpr hr,
      mem_map.mpr ⟨(i, v), (mem_entries_iff r i v).mpr hi, rfl⟩⟩

theorem hasEntries_iff : d.hasEntries = true ↔ ∃ t i v, d.get₂ t i = some v := by
  unfold hasEntries get₂
  simp only [any_eq_true, Bool.not_eq_true']
  constructor
  · rintro ⟨r, hr, he⟩
    obtain ⟨t, ht⟩ := (mem_values_iff d r).mp hr
    have hne : ¬ ∀ i, r.get? i = none := by rw [← isEmpty_iff]; simp [he]
    obtain ⟨i, hi⟩ := not_forall.mp hne
    obtain ⟨v, hv⟩ := ne_none_iff_exists'.mp hi
    exact ⟨t, i, v, by simp [ht, hv]⟩
  · rintro ⟨t, i, v, h⟩
    obtain ⟨r, hr, hi⟩ := bind_eq_some_iff.mp h
    refine ⟨r, (mem_values_iff d r).mpr ⟨t, hr⟩, ?_⟩
    rw [← Bool.not_eq_true, isEmpty_iff]
    intro hall
    simp [hall i] at hi

end Dict

end Foundations
