import Bidding.Delta.Authorized
import Bidding.Foundations.Paging

/-!
# The pages of a run

The pages of a run hand out, once and in order, exactly the changes the batch policy reads (`readPage_isPage`): those the
reader is authorized to see, when the two read policies agree on the tombstones of package children.
-/

namespace Bidding.Delta

open Foundations Foundations.Paging List

variable {db : Database} {reader : Reader} {collation : Collation} {after through : ℕ} {c : Candidate} {e : DeltaError}

theorem mem_delta : c ∈ db.delta reader collation after through ↔ c ∈ db.deltaUnion reader after through :=
  (perm_insertionSort _ _).mem_iff

theorem key_of_position {d : Candidate} (h : c.position collation = d.position collation) : c.key = d.key := by
  have hmarker : c.marker.version = d.marker.version ∧ c.marker.kind = d.marker.kind ∧
      c.marker.table = d.marker.table ∧ c.marker.recordId = d.marker.recordId := by
    obtain ⟨hversion, htail⟩ := Prod.mk.inj (toLex.injective h)
    obtain ⟨hkind, htail⟩ := Prod.mk.inj (toLex.injective htail)
    obtain ⟨htable, hid⟩ := Prod.mk.inj (toLex.injective htail)
    exact ⟨hversion, hkind, htable, hid⟩
  obtain ⟨-, hkind, htable, hid⟩ := hmarker
  have hkind' : c.kind = d.kind := by
    cases hc : c.kind <;> cases hd : d.kind <;>
      first | rfl | simp [Candidate.marker, hc, hd, Kind.text] at hkind
  rw [Candidate.key, Candidate.key, hkind', TableKey.payloadKey_injective htable]
  exact congrArg (fun id => (d.kind, d.table, id)) hid

theorem delta_sorted : (db.delta reader collation after through).Pairwise fun c d =>
    c.position collation < d.position collation := by
  have hle : (db.delta reader collation after through).Pairwise fun c d =>
      c.position collation ≤ d.position collation := by
    have hsorted := pairwise_insertionSort (fun c d : Candidate => c.position collation ≤ d.position collation)
      (db.deltaUnion reader after through)
    exact hsorted
  have hkeys : ((db.delta reader collation after through).map Candidate.key).Nodup :=
    ((perm_insertionSort _ _).map _).nodup_iff.mpr nodup_keys
  have hne : (db.delta reader collation after through).Pairwise fun c d => c.key ≠ d.key :=
    pairwise_map.mp hkeys
  refine (hle.and hne).imp fun {c d} h => lt_of_le_of_ne h.1 fun hpos => h.2 (key_of_position hpos)

/-! ## One page -/

theorem readCandidates_spec {Record : Type} {settings : Settings} {size : Entry Record → ℕ}
    {project : Candidate → Option (Entry Record)} :
    ∀ {candidates : List Candidate} {s s' : PageState Record} {stopped : Bool},
      readCandidates settings size project candidates s = .ok (s', stopped) → ∃ visited rest, candidates = visited ++ rest ∧
        s'.entries = s.entries ++ visited.filterMap project ∧
        s'.marker = (visited.getLast?.map Candidate.marker).getD s.marker ∧
        (stopped = false → rest = []) ∧ (stopped = true → s'.entries ≠ [])
  | [], s, s', stopped, h => by
    obtain ⟨rfl, rfl⟩ : s = s' ∧ false = stopped := by simpa [readCandidates] using h
    exact ⟨[], [], by simp⟩
  | c :: candidates, s, s', stopped, h => by
    -- a candidate that is passed over or handed out joins the front
    have hstep : ∀ t : PageState Record, t.entries = s.entries ++ [c].filterMap project → t.marker = c.marker →
        readCandidates settings size project candidates t = .ok (s', stopped) →
        ∃ visited rest, c :: candidates = visited ++ rest ∧
          s'.entries = s.entries ++ visited.filterMap project ∧
          s'.marker = (visited.getLast?.map Candidate.marker).getD s.marker ∧
          (stopped = false → rest = []) ∧ (stopped = true → s'.entries ≠ []) := by
      intro t hentries hmarker hrest
      obtain ⟨visited, rest, rfl, hout, hlast, hall, hsome⟩ := readCandidates_spec hrest
      refine ⟨c :: visited, rest, rfl, ?_, ?_, hall, hsome⟩
      · rw [hout, hentries, append_assoc, ← filterMap_append, singleton_append]
      · rw [hlast, hmarker]
        cases hv : visited.getLast? <;> simp [getLast?_cons, hv]
    unfold readCandidates at h
    cases hproject : project c with
    | none =>
      rw [hproject] at h
      exact hstep _ (by simp [hproject]) rfl h
    | some entry =>
      rw [hproject] at h
      by_cases hfull : s.entries.length ≥ settings.recordLimit ∨ s.usedBytes + size entry > settings.byteLimit
      · simp only [if_pos hfull] at h
        by_cases hempty : s.entries = []
        · simp [hempty] at h
        · obtain ⟨rfl, rfl⟩ : s = s' ∧ true = stopped := by simpa [hempty] using h
          exact ⟨[], c :: candidates, by simp, by simp, by simp, by simp, fun _ => hempty⟩
      · simp only [if_neg hfull] at h
        exact hstep _ (by simp [hproject]) rfl h

theorem readCandidates_error {Record : Type} {settings : Settings} {size : Entry Record → ℕ}
    {project : Candidate → Option (Entry Record)} :
    ∀ {candidates : List Candidate} {s : PageState Record},
      readCandidates settings size project candidates s = .error e → e = .recordTooLarge
  | [], s, h => by simp [readCandidates] at h
  | c :: candidates, s, h => by
    unfold readCandidates at h
    split at h
    · exact readCandidates_error h
    split at h
    · split at h
      · simpa using h.symm
      · simp at h
    · exact readCandidates_error h

theorem readCandidates_congr {Record : Type} {settings : Settings} {size : Entry Record → ℕ}
    {project project' : Candidate → Option (Entry Record)} :
    ∀ {candidates : List Candidate} {s : PageState Record}, (∀ c ∈ candidates, project c = project' c) →
      readCandidates settings size project candidates s = readCandidates settings size project' candidates s
  | [], _, _ => rfl
  | c :: candidates, s, h => by
    unfold readCandidates
    rw [h c (by simp)]
    have hrest : ∀ t : PageState Record, readCandidates settings size project candidates t =
        readCandidates settings size project' candidates t :=
      fun t => readCandidates_congr fun d hd => h d (mem_cons_of_mem _ hd)
    cases project' c with
    | none => exact hrest _
    | some entry => simp only [hrest]

def Database.batchEntry {Record : Type} (db : Database) (reader : Reader)
    (rendering : Rendering Record) (c : Candidate) : Option (Entry Record) :=
  if db.batchReads reader c.table c.item then some (rendering.entry c) else none

variable {Record : Type} {rendering : Rendering Record} {settings : Settings}

theorem candidateLimit_pos (settings : Settings) : 0 < settings.candidateLimit := by
  unfold Settings.candidateLimit
  omega

/-- A page is a page of the changes of the range: no change is left out or handed out again where
one page ends and the next begins. -/
theorem readPage_isPage {marker : Marker} {entries : List (Entry Record)} {next : Option Marker}
    (h : db.readPage reader collation rendering settings after through marker = .ok (entries, next)) :
    IsPage (Candidate.position collation) (db.delta reader collation after through)
      (db.batchEntry reader rendering) (marker.position collation) entries (next.map (Marker.position collation)) := by
  have hbeyond : db.loadCandidates reader collation after through marker settings.candidateLimit =
      (beyond (Candidate.position collation) (db.delta reader collation after through)
        (marker.position collation)).take settings.candidateLimit := rfl
  generalize hcandidates : db.loadCandidates reader collation after through marker settings.candidateLimit = candidates
    at hbeyond
  have hsub : ∀ c ∈ candidates, c ∈ db.deltaUnion reader after through := by
    intro c hc
    rw [hbeyond] at hc
    exact mem_delta.mp (mem_beyond.mp (mem_of_mem_take hc)).1
  -- on this page the projection is the page-independent one
  have hproject : ∀ c ∈ candidates, db.projectCandidate reader rendering candidates c = db.batchEntry reader rendering c := by
    intro c hc
    rw [Database.projectCandidate, Database.batchEntry, allows_iff hsub hc]
  simp only [Database.readPage, hcandidates, readCandidates_congr hproject] at h
  split at h
  · exact absurd h (by simp)
  rename_i s stopped hloop
  obtain ⟨visited, rest, hsplit, hentries, hmarker, hall, hsome⟩ := readCandidates_spec hloop
  rw [nil_append] at hentries
  set all := beyond (Candidate.position collation) (db.delta reader collation after through) (marker.position collation)
  by_cases hmore : stopped = true ∨ candidates.length ≥ settings.candidateLimit
  · simp only [if_pos hmore, Except.ok.injEq, Prod.mk.injEq] at h
    obtain ⟨rfl, rfl⟩ := h
    -- some candidate was visited
    have hvisited : visited ≠ [] := by
      rintro rfl
      rcases hmore with hstopped | hlimit
      · exact hsome hstopped (by simpa using hentries)
      have hpos := candidateLimit_pos settings
      cases hstopped : stopped with
      | true => exact hsome hstopped (by simpa using hentries)
      | false =>
        rw [hall hstopped] at hsplit
        simp [hsplit] at hlimit
        omega
    have hlast := getLast?_eq_some_getLast hvisited
    refine ⟨visited, rest ++ all.drop settings.candidateLimit, _, ?_, hlast, ?_, hentries⟩
    · rw [← append_assoc, ← hsplit, hbeyond, take_append_drop]
    · rw [hmarker, hlast]
      rfl
  · simp only [if_neg hmore, Except.ok.injEq, Prod.mk.injEq] at h
    obtain ⟨rfl, rfl⟩ := h
    obtain ⟨hstopped, hlimit⟩ := not_or.mp hmore
    -- every candidate was visited, and the query returned all of them
    rw [hall (by simpa using hstopped), append_nil] at hsplit
    have hfull : candidates = all := by
      rw [hbeyond, take_eq_self_iff]
      rw [hbeyond, length_take] at hlimit
      omega
    show s.entries = all.filterMap _
    rw [hentries, ← hsplit, hfull]

/-! ## A run of pages -/

variable (responses : ℕ → Option (Except DeltaError (Page Record))) {page : Page Record}

/-- The run has responses up to the `n`-th, and no more. -/
def Ends (n : ℕ) : Prop :=
  (∀ i ≤ n, (responses i).isSome = true) ∧ responses (n + 1) = none

/-- Every response up to the `n`-th is a page. -/
def Answered (n : ℕ) : Prop :=
  ∀ i ≤ n, ∃ page, responses i = some (.ok page)

/-- The entries of the pages up to the `n`-th, one page after the other. -/
def yielded (n : ℕ) : List (Entry Record) :=
  (List.range (n + 1)).flatMap fun i =>
    match responses i with
    | some (.ok page) => page.entries
    | _ => []

theorem yielded_zero (h : responses 0 = some (.ok page)) : yielded responses 0 = page.entries := by simp [yielded, h]

theorem yielded_succ (h : responses 0 = some (.ok page)) (n : ℕ) :
    yielded responses (n + 1) = page.entries ++ yielded (fun i => responses (i + 1)) n := by
  unfold yielded
  rw [range_succ_eq_map, flatMap_cons, h, flatMap_map]

variable {session : Session}

theorem readDeltaPage_eq {request : Request} {marker : Marker} {supplied : String}
    (hpoint : db.readingPoint session request = .ok (after, through, marker, supplied))
    (htoken : supplied = session.visibilityToken ∨ (after = 0 ∧ supplied = ""))
    (hmin : db.minAvailableVersion ≤ after) : db.readDeltaPage reader collation rendering settings session request =
      match db.readPage reader collation rendering settings after through marker with
      | .error e => .error e
      | .ok (entries, next) => .ok ⟨entries, through, next.map fun m =>
          encodeDeltaCursor session after through m (request.now + settings.ttl),
          session.visibilityToken⟩ := by
  have hgate : ¬ ((0 < after ∧ supplied = "") ∨
      (supplied ≠ "" ∧ supplied ≠ session.visibilityToken)) := by
    rcases htoken with rfl | ⟨rfl, rfl⟩
    · simp [session.token_ne]
    · simp
  cases hread : db.readPage reader collation rendering settings after through marker <;>
    simp only [Database.readDeltaPage, hpoint, hread, if_neg hgate, if_neg (not_lt.mpr hmin)]

theorem readingPoint_signed (now exp : ℕ) (marker : Marker) :
    db.readingPoint session ⟨now, .signed (encodeDeltaCursor session after through marker exp), none, ""⟩ =
      if exp < now then .error .cursorExpired
      else .ok (after, through, marker, session.visibilityToken) := by
  by_cases hlate : exp < now <;>
    simp [Database.readingPoint, decodeDeltaCursor, encodeDeltaCursor, hlate]

theorem readDeltaPage_expired {request : Request} (hpoint : db.readingPoint session request = .error e) :
    db.readDeltaPage reader collation rendering settings session request = .error e := by
  simp only [Database.readDeltaPage, hpoint]

theorem readPage_error {marker : Marker}
    (h : db.readPage reader collation rendering settings after through marker = .error e) : e = .recordTooLarge := by
  simp only [Database.readPage] at h
  split at h
  · rename_i e' hloop
    obtain rfl : e' = e := by simpa using h
    exact readCandidates_error hloop
  · split at h <;> simp at h

theorem ends_zero {request : Request} {clock : ℕ → ℕ}
    (h : ∀ page, db.readDeltaPage reader collation rendering settings session request = .ok page →
      page.nextCursor = none) : Ends (db.responses reader collation rendering settings session request clock) 0 := by
  refine ⟨fun i hi => ?_, ?_⟩
  · obtain rfl : i = 0 := by omega
    rfl
  · unfold Database.responses
    cases hpage : db.readDeltaPage reader collation rendering settings session request with
    | error e => rfl
    | ok page => simp [h page hpage]

/-- A request at a marker starts a run that ends; when all its responses are pages, they hand out
what the batch policy reads of the changes beyond the marker. By induction on the number of these
changes, which each page that goes on makes smaller. -/
theorem responses_spec (hmin : db.minAvailableVersion ≤ after) {request : Request} {clock : ℕ → ℕ}
    {marker : Marker} {supplied : String}
    (hpoint : db.readingPoint session request = .ok (after, through, marker, supplied))
    (htoken : supplied = session.visibilityToken ∨ (after = 0 ∧ supplied = "")) :
    ∃ n, Ends (db.responses reader collation rendering settings session request clock) n ∧
      (∀ i ≤ n, ∀ e, db.responses reader collation rendering settings session request clock i =
        some (.error e) → e = .recordTooLarge ∨ e = .cursorExpired) ∧
      (Answered (db.responses reader collation rendering settings session request clock) n →
        yielded (db.responses reader collation rendering settings session request clock) n =
          (beyond (Candidate.position collation) (db.delta reader collation after through)
            (marker.position collation)).filterMap (db.batchEntry reader rendering)) := by
  generalize hk : (beyond (Candidate.position collation) (db.delta reader collation after through)
    (marker.position collation)).length = k
  induction k using Nat.strong_induction_on generalizing request clock marker supplied with
  | _ k ih =>
  have hresponse : db.readDeltaPage reader collation rendering settings session request = _ :=
    readDeltaPage_eq hpoint htoken hmin
  cases hread : db.readPage reader collation rendering settings after through marker with
  | error e =>
    simp only [hread] at hresponse
    refine ⟨0, ends_zero (by simp [hresponse]), ?_, ?_⟩
    · intro i hi e' he'
      obtain rfl : i = 0 := by omega
      obtain rfl : e = e' := by simpa [Database.responses, hresponse] using he'
      exact .inl (readPage_error hread)
    · intro hanswered
      obtain ⟨page, hpage⟩ := hanswered 0 le_rfl
      simp [Database.responses, hresponse] at hpage
  | ok result =>
    obtain ⟨entries, next⟩ := result
    have hpage := readPage_isPage hread
    simp only [hread] at hresponse
    cases next with
    | none =>
      simp only [Option.map_none] at hresponse hpage
      refine ⟨0, ends_zero (by simp [hresponse]), ?_, ?_⟩
      · intro i hi e he
        obtain rfl : i = 0 := by omega
        simp [Database.responses, hresponse] at he
      · intro _
        have hfirst : db.responses reader collation rendering settings session request clock 0 =
            some (.ok ⟨entries, through, none, session.visibilityToken⟩) := by
          rw [Database.responses, hresponse]
        rw [yielded_zero _ hfirst]
        exact hpage
    | some m =>
      simp only [Option.map_some] at hresponse hpage
      -- the next request brings the cursor just signed
      have hnext : ∀ n, db.responses reader collation rendering settings session request clock
          (n + 1) = db.responses reader collation rendering settings session
            ⟨clock 0, .signed (encodeDeltaCursor session after through m
              (request.now + settings.ttl)), none, ""⟩ (fun i => clock (i + 1)) n := by
        intro n
        rw [Database.responses, hresponse]
      have hfirst : db.responses reader collation rendering settings session request clock 0 =
          some (.ok ⟨entries, through, some (encodeDeltaCursor session after through m
            (request.now + settings.ttl)), session.visibilityToken⟩) := by
        rw [Database.responses, hresponse]
      have hsigned : db.readingPoint session ⟨clock 0, .signed (encodeDeltaCursor session after through m
          (request.now + settings.ttl)), none, ""⟩ = _ := readingPoint_signed _ _ m
      -- the rest of the run ends, and hands out what lies beyond the new marker
      obtain ⟨n, hends, herrors, hyields⟩ : ∃ n,
          Ends (fun i => db.responses reader collation rendering settings session request clock (i + 1)) n ∧
          (∀ i ≤ n, ∀ e, db.responses reader collation rendering settings session request clock
            (i + 1) = some (.error e) → e = .recordTooLarge ∨ e = .cursorExpired) ∧
          (Answered (fun i => db.responses reader collation rendering settings session request clock (i + 1)) n →
            yielded (fun i => db.responses reader collation rendering settings session request clock (i + 1)) n =
              (beyond (Candidate.position collation) (db.delta reader collation after through)
                (m.position collation)).filterMap (db.batchEntry reader rendering)) := by
        simp only [hnext]
        by_cases hlate : request.now + settings.ttl < clock 0
        · rw [if_pos hlate] at hsigned
          have hexpired : db.readDeltaPage reader collation rendering settings session _ = _ :=
            readDeltaPage_expired hsigned
          refine ⟨0, ends_zero (by simp [hexpired]), ?_, ?_⟩
          · intro i hi e he
            obtain rfl : i = 0 := by omega
            right
            simpa [Database.responses, hexpired] using he.symm
          · intro hanswered
            obtain ⟨page, hpage⟩ := hanswered 0 le_rfl
            simp [Database.responses, hexpired] at hpage
        · rw [if_neg hlate] at hsigned
          have hshorter := hpage.shorter delta_sorted
          rw [hk] at hshorter
          exact ih _ hshorter hsigned (.inl rfl) rfl
      refine ⟨n + 1, ⟨?_, hends.2⟩, ?_, ?_⟩
      · intro i hi
        cases i with
        | zero => rfl
        | succ i => exact hends.1 i (by omega)
      · intro i hi e he
        cases i with
        | zero => simp [hfirst] at he
        | succ i => exact herrors i (by omega) e he
      · intro hanswered
        rw [yielded_succ _ hfirst, hyields fun i hi => hanswered (i + 1) (by omega)]
        exact hpage.append delta_sorted

/-! ## Exactness -/

/-- The entries are those of the changes of the range that the scope shows and the read policy for
one record allows: each of them once, in increasing order, and no other. -/
def Database.Exact (db : Database) (reader : Reader) (collation : Collation)
    (rendering : Rendering Record) (after through : ℕ) (entries : List (Entry Record)) : Prop :=
  ∃ changes : List Candidate, (changes.Pairwise fun c d => c.position collation < d.position collation) ∧
    (∀ c, c ∈ changes ↔ c ∈ db.deltaUnion reader after through ∧
      db.canReadRecord reader c.table c.item = true) ∧
    entries = changes.map rendering.entry

/-- The reader is the manager of the organisation or the owner of the personal workspace, or for
every tombstone of a package child in the range and the scope: a live child of its id belongs to
a package assigned to the reader just when the package of its snapshot is assigned to them. -/
def Database.ChildTombstonesAgree (db : Database) (reader : Reader) (after through : ℕ) : Prop :=
  reader.unrestricted = true ∨ ∀ d ∈ db.tombstones, d.table.packageChild = true →
    db.deletionPredicate reader d = true → after < d.version → d.version ≤ through →
    (db.liveChildAssigned reader d.table d.recordId = true ↔
      db.assigned reader.userId (column d.snapshot "goi_thau_id") "goithau" = true)

theorem reads_agree_iff : (∀ c ∈ db.deltaUnion reader after through, db.batchReads reader c.table c.item =
    db.canReadRecord reader c.table c.item) ↔ db.ChildTombstonesAgree reader after through := by
  cases hscoped : reader.unrestricted with
  | true => exact ⟨fun _ => .inl hscoped, fun _ c hc => batchReads_eq hc (.inl hscoped)⟩
  | false =>
    have hmem : ∀ d ∈ db.tombstones, db.deletionPredicate reader d = true → after < d.version →
        d.version ≤ through → d.candidate ∈ db.deltaUnion reader after through :=
      fun d hd hdel hafter hthrough => mem_deltaUnion.mpr (.inr ⟨d, hd, rfl, hdel, hafter, hthrough⟩)
    constructor
    · intro h
      refine .inr fun d hd hchild hdel hafter hthrough => ?_
      have hcand := hmem d hd hdel hafter hthrough
      obtain ⟨hbatch, hsingle⟩ := batchReads_childTombstone hscoped hd hcand hchild
      have hagree := h _ hcand
      rw [show d.candidate.table = d.table from rfl, hbatch, hsingle] at hagree
      rw [hagree]
    · intro h c hc
      have hall := h.resolve_left (by simp [hscoped])
      rcases mem_deltaUnion.mp hc with ⟨r, -, hcand, -⟩ | ⟨d, hd, rfl, hdel, hafter, hthrough⟩
      · exact batchReads_eq hc (.inr (.inl (by rw [hcand]; rfl)))
      cases hchild : d.table.packageChild with
      | false => exact batchReads_eq hc (.inr (.inr hchild))
      | true =>
        obtain ⟨hbatch, hsingle⟩ := batchReads_childTombstone hscoped hd hc hchild
        rw [show d.candidate.table = d.table from rfl, hbatch, hsingle, Bool.eq_iff_iff]
        exact hall d hd hchild hdel hafter hthrough

def Entry.key : Entry Record → Kind × TableKey × String
  | .delete t id _ => (.delete, t, id)
  | .upsert t id _ _ => (.upsert, t, id)

theorem key_entry (rendering : Rendering Record) (c : Candidate) : (rendering.entry c).key = c.key := by
  cases hkind : c.kind <;> simp [Rendering.entry, Candidate.key, Entry.key, hkind]

theorem mem_of_map_entry_eq {taken given : List Candidate} (htaken : ∀ c ∈ taken, c ∈ db.deltaUnion reader after through)
    (h : taken.map rendering.entry = given.map rendering.entry)
    (hc : c ∈ db.deltaUnion reader after through) (hgiven : c ∈ given) : c ∈ taken := by
  have hkey : c.key ∈ taken.map Candidate.key := by
    have hkeys := congrArg (List.map Entry.key) h
    simp only [map_map] at hkeys
    have hcomp : (Entry.key ∘ rendering.entry) = Candidate.key := funext (key_entry rendering)
    rw [hcomp] at hkeys
    rw [hkeys]
    exact mem_map_of_mem hgiven
  obtain ⟨d, hd, hdc⟩ := mem_map.mp hkey
  have hnodup : ((db.deltaUnion reader after through).map Candidate.key).Nodup := nodup_keys
  rwa [← inj_on_of_nodup_map hnodup (htaken d hd) hc hdc]

theorem filterMap_batchEntry (l : List Candidate) : l.filterMap (db.batchEntry reader rendering) =
    (l.filter fun c => db.batchReads reader c.table c.item).map rendering.entry := by
  induction l with
  | nil => rfl
  | cons c l ih =>
    cases hc : db.batchReads reader c.table c.item <;>
      simp [Database.batchEntry, hc, ih]

theorem exact_filterMap_iff : db.Exact reader collation rendering after through
      ((db.delta reader collation after through).filterMap (db.batchEntry reader rendering)) ↔
    db.ChildTombstonesAgree reader after through := by
  rw [filterMap_batchEntry, ← reads_agree_iff]
  constructor
  · rintro ⟨changes, -, hmem, heq⟩ c hc
    have hchanges : ∀ c ∈ changes, c ∈ db.deltaUnion reader after through :=
      fun c hc => ((hmem c).mp hc).1
    have hread : ∀ c ∈ (db.delta reader collation after through).filter fun c =>
        db.batchReads reader c.table c.item, c ∈ db.deltaUnion reader after through :=
      fun c hc => mem_delta.mp (mem_filter.mp hc).1
    rw [Bool.eq_iff_iff]
    constructor
    · intro hbatch
      exact ((hmem c).mp (mem_of_map_entry_eq hchanges heq.symm hc (mem_filter.mpr ⟨mem_delta.mpr hc, hbatch⟩))).2
    · intro hsingle
      exact (mem_filter.mp (mem_of_map_entry_eq hread heq hc ((hmem c).mpr ⟨hc, hsingle⟩))).2
  · intro h
    refine ⟨_, delta_sorted.filter _, fun c => ?_, rfl⟩
    rw [mem_filter, mem_delta]
    exact and_congr_right fun hc => by rw [h c hc]

theorem beyond_start (after : ℕ) : beyond (Candidate.position collation)
    (db.delta reader collation after through) (Marker.position collation ⟨after, "", "", ""⟩) =
      db.delta reader collation after through := by
  apply beyond_eq_self
  intro c hc
  have hafter : after < c.version := by
    rcases mem_deltaUnion.mp (mem_delta.mp hc) with ⟨r, -, hcand, -, hafter, -⟩ | ⟨d, -, rfl, -, hafter, -⟩
    · rw [hcand]
      exact hafter
    · exact hafter
  exact Prod.Lex.toLex_lt_toLex.mpr (.inl hafter)

/-- Every run of delta pages ends. Its first response may refuse the request, a later one only for the size of a record or a
late cursor; and when every response is a page, the run hands out exactly the changes the reader is authorized to see, each
once and in order, if and only if the two read policies agree on the tombstones of package children. -/
theorem delta_run_exact_iff (db : Database) (reader : Reader) (collation : Collation)
    (rendering : Rendering Record) (settings : Settings) (session : Session) (now : ℕ)
    (clock : ℕ → ℕ) (version : ℤ) (token : String) :
    ∃ n, Ends (db.responses reader collation rendering settings session ⟨now, .absent, some version, token⟩ clock) n ∧
      (∀ i ≤ n, ∀ e, db.responses reader collation rendering settings session
        ⟨now, .absent, some version, token⟩ clock i = some (.error e) → i = 0 ∨ e = .recordTooLarge ∨ e = .cursorExpired) ∧
      (Answered (db.responses reader collation rendering settings session ⟨now, .absent, some version, token⟩ clock) n →
        (db.Exact reader collation rendering (max 0 version).toNat db.currentVersion
            (yielded (db.responses reader collation rendering settings session ⟨now, .absent, some version, token⟩ clock) n) ↔
          db.ChildTombstonesAgree reader (max 0 version).toNat db.currentVersion)) := by
  set request : Request := ⟨now, .absent, some version, token⟩
  set after := (max 0 version).toNat
  have hpoint : db.readingPoint session request = .ok (after, db.currentVersion, ⟨after, "", "", ""⟩, token) := rfl
  by_cases hgate : (0 < after ∧ token = "") ∨ (token ≠ "" ∧ token ≠ session.visibilityToken) ∨ after < db.minAvailableVersion
  · -- the first request is refused
    have hrefused : ∃ e, db.readDeltaPage reader collation rendering settings session request = .error e := by
      rw [← or_assoc] at hgate
      simp only [Database.readDeltaPage, hpoint]
      split
      · exact ⟨_, rfl⟩
      · rename_i hvisible
        exact ⟨_, if_pos (hgate.resolve_left hvisible)⟩
    obtain ⟨e, hrefused⟩ := hrefused
    refine ⟨0, ends_zero (by simp [hrefused]), fun i hi _ _ => .inl (by omega), ?_⟩
    intro hanswered
    obtain ⟨page, hpage⟩ := hanswered 0 le_rfl
    simp [Database.responses, hrefused] at hpage
  · obtain ⟨hblank, hother, hmin⟩ : ¬ (0 < after ∧ token = "") ∧
        ¬ (token ≠ "" ∧ token ≠ session.visibilityToken) ∧ ¬ after < db.minAvailableVersion := by
      simpa only [not_or] using hgate
    have htoken : token = session.visibilityToken ∨ (after = 0 ∧ token = "") := by
      by_cases hempty : token = ""
      · exact .inr ⟨by by_contra h; exact hblank ⟨by omega, hempty⟩, hempty⟩
      · exact .inl (by by_contra h; exact hother ⟨hempty, h⟩)
    obtain ⟨n, hends, herrors, hyields⟩ := @responses_spec db reader collation _ _ _ rendering settings session
      (not_lt.mp hmin) _ clock _ _ hpoint htoken
    refine ⟨n, hends, fun i hi e he => .inr (herrors i hi e he), fun hanswered => ?_⟩
    rw [hyields hanswered, beyond_start]
    exact exact_filterMap_iff

/-- The package `p`, and its assignment to the employee `u`. -/
def assignedPackageRows : TableKey → List LiveRow
  | .goithau => [⟨"p", 1, Dict.ofList [("id", .str "p")]⟩]
  | .assignments => [⟨"a", 2, Dict.ofList [("id", .str "a"), ("id_nhan_vien", .str "u"),
      ("id_muc_tieu", .str "p"), ("loai_doi_tuong", .str "goithau")]⟩]
  | _ => []

/-- The goods item `g` of the package, deleted at version 5. -/
def deletedGoods : Tombstone :=
  ⟨.goithauhanghoa, "g", 5, Dict.ofList [("id", .str "g"), ("goi_thau_id", .str "p")]⟩

theorem column_assignedPackageRows (t : TableKey) : ∀ r ∈ assignedPackageRows t, column r.columns "goi_thau_id" = none := by
  cases t <;> decide

theorem column_deletedGoods : column deletedGoods.snapshot "goi_thau_id" = some "p" := by decide

def goodsDeleted : Database where
  rows := assignedPackageRows
  tombstones := [deletedGoods]
  currentVersion := 5
  minAvailableVersion := 0
  nodup_ids t := by cases t <;> decide
  nodup_tombstones := by decide
  row_id t := by cases t <;> decide
  snapshot_id := by decide
  row_package t r hr id h := absurd h (by simp [column_assignedPackageRows t r hr])
  snapshot_package d hd id h := by
    obtain rfl := mem_singleton.mp hd
    obtain rfl := Option.mem_unique column_deletedGoods h
    decide

theorem assignedEmployee_personal : false = true → false = true := id

theorem assignedEmployee_admitted : false = true ∨ (some "employee").isSome = true := .inr rfl

def assignedEmployee : Reader where
  userId := "u"
  activeRole := some "employee"
  platformAdmin := false
  membershipRole := some "employee"
  personalScope := false
  personalOwner := false
  permission _ := "view"
  personal := assignedEmployee_personal
  admitted := assignedEmployee_admitted

theorem plainSession_token : "token" ≠ "" := by decide

def plainSession : Session := ⟨"binding", fun _ => "signature", "token", plainSession_token⟩

def plainRendering : Rendering Fields := ⟨fun _ record => record, fun _ => 100⟩

/-- The employee knows version 4 and asks for the changes: one page comes, the last one, and it
does not hold the deletion of `g`, which the scope shows and the read policy allows. -/
theorem deleted_goods_not_announced :
    Ends (goodsDeleted.responses assignedEmployee .codePoints plainRendering ⟨none, none, none⟩
      plainSession ⟨0, .absent, some 4, "token"⟩ id) 0 ∧
    Answered (goodsDeleted.responses assignedEmployee .codePoints plainRendering
      ⟨none, none, none⟩ plainSession ⟨0, .absent, some 4, "token"⟩ id) 0 ∧
    ¬ goodsDeleted.Exact assignedEmployee .codePoints plainRendering 4 5
      (yielded (goodsDeleted.responses assignedEmployee .codePoints plainRendering
        ⟨none, none, none⟩ plainSession ⟨0, .absent, some 4, "token"⟩ id) 0) := by
  have hpage : goodsDeleted.readDeltaPage assignedEmployee .codePoints plainRendering
      ⟨none, none, none⟩ plainSession ⟨0, .absent, some 4, "token"⟩ = .ok ⟨[], 5, none, "token"⟩ := rfl
  refine ⟨ends_zero (by simp [hpage]), fun i hi => ?_, ?_⟩
  · obtain rfl : i = 0 := by omega
    exact ⟨⟨[], 5, none, "token"⟩, by rw [Database.responses, hpage]⟩
  · rw [yielded_zero _ (by rw [Database.responses, hpage])]
    rintro ⟨changes, -, hmem, hentries⟩
    have hdeletion : deletedGoods.candidate ∈ changes := by
      rw [hmem]
      decide
    rw [map_eq_nil_iff.mp hentries.symm] at hdeletion
    simp at hdeletion

end Bidding.Delta
