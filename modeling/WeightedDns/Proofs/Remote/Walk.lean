import WeightedDns.Proofs.Dialogue.Log
import WeightedDns.Proofs.Zone.Listing

/-!
# Walks over listings

Both walks ask for the pages of a listing one after another until an answer ends the walk or the
limit is reached (`IsWalk`). `pagesFrom` is the walk they have in common: it returns the pages that
it was given, and the two make of these their records, or the first host of a name. So whoever
answers, every transcript of a walk is made of the answers to the pages from one on, and the answers
alone say how far it goes and what it returns (`walks_outcome`).
-/

namespace WeightedDns

/-- No page of the walk comes after this one: it is empty or has no successor. -/
def Page.isLast {α : Type} (p : Page α) : Bool := !p.hasMore || p.items.isEmpty

namespace Remote

variable {α : Type}

/-! ## Pages -/

/-- The answers that end a walk: errors, and pages of a kind. -/
def Ends (last : Page α → Bool) : Except ServiceError (Page α) → Prop
  | .error _ => True
  | .ok page => last page = true

/-- The answers to the requests of a walk: at most so many as the limit says, and one is the last
exactly if it ends the walk or reaches the limit. -/
structure IsWalk (last : Page α → Bool) (limit : Nat)
    (answers : List (Except ServiceError (Page α))) : Prop where
  nil_iff : answers = [] ↔ limit = 0
  length_le : answers.length ≤ limit
  last_iff : ∀ (i : Nat) (h : i < answers.length),
    i + 1 = answers.length ↔ Ends last answers[i] ∨ i + 1 = limit

/-- The pages of a walk from one page on, on at most `pages` of them. -/
def pagesFrom (ask : PageRequest → Dialogue ServiceError (Page α)) (last : Page α → Bool)
    (pages : Nat) (request : PageRequest) : Dialogue ServiceError (List (Page α)) :=
  match pages with
  | 0 => pure []
  | pages + 1 => do
    let page ← ask request
    if last page then pure [page]
    else
      let rest ← pagesFrom ask last pages request.next
      pure (page :: rest)

theorem isWalk_zero_iff {last : Page α → Bool} {answers : List (Except ServiceError (Page α))} :
    IsWalk last 0 answers ↔ answers = [] := by
  constructor
  · intro h
    exact h.nil_iff.mpr rfl
  · rintro rfl
    exact ⟨iff_of_true rfl rfl, Nat.le_refl 0, fun i h => absurd h (Nat.not_lt_zero i)⟩

theorem not_isWalk_nil {last : Page α → Bool} {limit : Nat} : ¬ IsWalk last (limit + 1) [] :=
  fun h => absurd (h.nil_iff.mp rfl) (Nat.succ_ne_zero limit)

/-- A walk that goes on after its first answer is a walk from there. -/
theorem isWalk_cons_iff {last : Page α → Bool} {limit : Nat}
    {answer : Except ServiceError (Page α)} {answers : List (Except ServiceError (Page α))} :
    IsWalk last (limit + 1) (answer :: answers) ↔
      (Ends last answer ∧ answers = []) ∨ (¬ Ends last answer ∧ IsWalk last limit answers) := by
  constructor
  · intro h
    have hfirst : answers = [] ↔ Ends last answer ∨ limit = 0 := by
      rw [← List.length_eq_zero_iff, eq_comm]
      simpa [eq_comm] using h.last_iff 0 (Nat.zero_lt_succ _)
    by_cases hends : Ends last answer
    · exact .inl ⟨hends, hfirst.mpr (.inl hends)⟩
    · rw [or_iff_right hends] at hfirst
      refine .inr ⟨hends, hfirst, Nat.le_of_succ_le_succ h.length_le, fun i hi => ?_⟩
      simpa using h.last_iff (i + 1) (Nat.succ_lt_succ hi)
  · rintro (⟨hends, rfl⟩ | ⟨hends, h⟩)
    · refine ⟨by simp, by simp, fun i hi => ?_⟩
      obtain rfl : i = 0 := by simpa using hi
      exact iff_of_true rfl (.inl hends)
    · refine ⟨by simp, Nat.succ_le_succ h.length_le, fun i hi => ?_⟩
      cases i with
      | zero =>
        have hnil : 0 = answers.length ↔ limit = 0 := by
          rw [eq_comm, List.length_eq_zero_iff, h.nil_iff]
        simpa [hends, eq_comm] using hnil
      | succ i => simpa using h.last_iff i (Nat.lt_of_succ_lt_succ hi)

section

variable {ask : PageRequest → Dialogue ServiceError (Page α)}
  {exchange : PageRequest → Except ServiceError (Page α) → Exchange} {last : Page α → Bool}

/-- One step of a walk: it ends with an error or with a last page, or goes on to the next page. -/
theorem transcript_pagesFrom_succ_iff
    (hask : ∀ request log result, (ask request).Transcript log result ↔
      log = [exchange request result])
    {pages : Nat} {request : PageRequest} {log : List Exchange}
    {result : Except ServiceError (List (Page α))} :
    (pagesFrom ask last (pages + 1) request).Transcript log result ↔
      (∃ e, log = [exchange request (.error e)] ∧ result = .error e) ∨
      (∃ page, last page = true ∧ log = [exchange request (.ok page)] ∧ result = .ok [page]) ∨
      ∃ page log' r, ¬ last page = true ∧
        (pagesFrom ask last pages request.next).Transcript log' r ∧
        log = exchange request (.ok page) :: log' ∧ result = r.map (page :: ·) := by
  rw [pagesFrom, Dialogue.transcript_bind_iff]
  simp only [hask]
  constructor
  · rintro (⟨page, _, log', rfl, hrest, rfl⟩ | herror)
    · split at hrest
      next hlast =>
        cases hrest
        exact .inr (.inl ⟨page, hlast, rfl, rfl⟩)
      next hlast =>
        obtain ⟨r, htranscript, rfl⟩ := Dialogue.transcript_map_iff.mp hrest
        exact .inr (.inr ⟨page, log', r, hlast, htranscript, rfl, rfl⟩)
    · exact .inl herror
  · rintro (herror | ⟨page, hlast, rfl, rfl⟩ | ⟨page, log', r, hlast, htranscript, rfl, rfl⟩)
    · exact .inr herror
    · refine .inl ⟨page, _, [], rfl, ?_, rfl⟩
      rw [if_pos hlast]
      exact .done _
    · refine .inl ⟨page, _, log', rfl, ?_, rfl⟩
      rw [if_neg hlast]
      exact Dialogue.transcript_map_iff.mpr ⟨r, htranscript, rfl⟩

/-- The exchanges about the pages of a walk, from the page on that comes after `n` others. -/
def pageLog (exchange : PageRequest → Except ServiceError (Page α) → Exchange) (n : Nat)
    (answers : List (Except ServiceError (Page α))) : List Exchange :=
  answers.mapIdx fun i answer => exchange (Zone.walkPage (n + i)) answer

theorem pageLog_cons (n : Nat) (answer : Except ServiceError (Page α))
    (answers : List (Except ServiceError (Page α))) :
    pageLog exchange n (answer :: answers) =
      exchange (Zone.walkPage n) answer :: pageLog exchange (n + 1) answers := by
  rw [pageLog, List.mapIdx_cons]
  refine congrArg (_ :: ·) (congrArg (List.mapIdx · answers) (funext fun i => ?_))
  rw [Nat.add_assoc, Nat.add_comm 1 i]

theorem pageLog_zero (answers : List (Except ServiceError (Page α))) :
    pageLog exchange 0 answers =
      answers.mapIdx fun i answer => exchange ⟨UInt32.ofNat (i + 1), 100⟩ answer := by
  refine congrArg (List.mapIdx · answers) (funext fun i => ?_)
  rw [Nat.zero_add]
  rfl

theorem mapM_ok_cons (page : Page α) (answers : List (Except ServiceError (Page α))) :
    (Except.ok page :: answers).mapM id = (answers.mapM id).map (page :: ·) := by
  rw [List.mapM_cons]
  rfl

/-- What is said on a walk whose pages are asked for one at a time, from the page on that comes
after `n` others. -/
theorem transcript_pagesFrom_iff
    (hask : ∀ request log result, (ask request).Transcript log result ↔
      log = [exchange request result])
    {pages n : Nat} {log : List Exchange} {result : Except ServiceError (List (Page α))} :
    (pagesFrom ask last pages (Zone.walkPage n)).Transcript log result ↔
      ∃ answers, IsWalk last pages answers ∧
        log = pageLog exchange n answers ∧ result = answers.mapM id := by
  -- by induction on the pages left, after `n` that have been asked for
  induction pages generalizing n log result with
  | zero =>
    rw [pagesFrom]
    simp only [isWalk_zero_iff]
    constructor
    · rintro ⟨⟩
      exact ⟨[], rfl, rfl, rfl⟩
    · rintro ⟨answers, rfl, rfl, rfl⟩
      exact .done []
  | succ pages ih =>
    rw [transcript_pagesFrom_succ_iff hask, Zone.walkPage_next]
    simp only [ih]
    constructor
    · rintro (⟨e, rfl, rfl⟩ | ⟨page, hlast, rfl, rfl⟩ |
        ⟨page, _, _, hlast, ⟨answers, hwalk, rfl, rfl⟩, rfl, rfl⟩)
      · exact ⟨[.error e], isWalk_cons_iff.mpr (.inl ⟨trivial, rfl⟩), rfl, rfl⟩
      · exact ⟨[.ok page], isWalk_cons_iff.mpr (.inl ⟨hlast, rfl⟩), rfl, rfl⟩
      · refine ⟨.ok page :: answers, isWalk_cons_iff.mpr (.inr ⟨hlast, hwalk⟩), ?_, ?_⟩
        · rw [pageLog_cons]
        · rw [mapM_ok_cons]
    · rintro ⟨answers, hwalk, rfl, rfl⟩
      cases answers with
      | nil => exact absurd hwalk not_isWalk_nil
      | cons answer answers =>
        rcases isWalk_cons_iff.mp hwalk with ⟨hends, rfl⟩ | ⟨hends, hrest⟩
        · cases answer with
          | error e => exact .inl ⟨e, rfl, rfl⟩
          | ok page => exact .inr (.inl ⟨page, hends, rfl, rfl⟩)
        · cases answer with
          | error e => exact absurd trivial hends
          | ok page =>
            exact .inr (.inr ⟨page, _, _, hends, ⟨answers, hrest, rfl, rfl⟩, pageLog_cons _ _ _,
              mapM_ok_cons _ _⟩)

end

/-! ## Records and hosts -/

/-- The records of a walk are those on its pages. -/
theorem recordsFrom_eq (domain : String) (query : RecordQuery) (pages : Nat)
    (request : PageRequest) :
    recordsFrom domain query pages request =
      pagesFrom (fun request => Dialogue.call (.listRecords domain query request)) Page.isLast
        pages request >>= fun walked => pure (walked.flatMap (·.items)) := by
  induction pages generalizing request with
  | zero => rfl
  | succ pages ih =>
    rw [recordsFrom, pagesFrom, Dialogue.bind_assoc]
    refine congrArg (Dialogue.call _ >>= ·) (funext fun page => ?_)
    change (if page.isLast then _ else _) = _
    split
    · simp
    · rw [Dialogue.bind_assoc, ih, Dialogue.bind_assoc]
      simp

/-- The host found on a walk is the first on its pages with the name. -/
theorem weightedHostFrom_eq (domain host name : String) (pages : Nat) (request : PageRequest) :
    weightedHostFrom domain host name pages request =
      pagesFrom (fun request => Dialogue.call (.listWeightedHosts domain (some host) request))
        (fun page => page.isLast || page.items.any fun h => Text.sameLetters h.name name)
        pages request >>= fun walked =>
          pure ((walked.flatMap (·.items)).find? fun h => Text.sameLetters h.name name) := by
  induction pages generalizing request with
  | zero => rfl
  | succ pages ih =>
    rw [weightedHostFrom, pagesFrom, Dialogue.bind_assoc]
    refine congrArg (Dialogue.call _ >>= ·) (funext fun page => ?_)
    cases hfound : page.items.find? fun h => Text.sameLetters h.name name with
    | some found =>
      have hname : Text.sameLetters found.name name = true := by
        simpa using List.find?_some hfound
      have hany : page.items.any (fun h => Text.sameLetters h.name name) = true :=
        List.any_eq_true.mpr ⟨found, List.mem_of_find?_eq_some hfound, hname⟩
      simp [hany, hfound]
    | none =>
      have hany : page.items.any (fun h => Text.sameLetters h.name name) = false := by
        simpa using hfound
      rw [hany, Bool.or_false]
      change (if page.isLast then _ else _) = _
      split
      · simp [hfound]
      · rw [ih, Dialogue.bind_assoc]
        simp [hfound]

/-! ## Walks as a whole -/

/-- The dialogue walks over the pages of a listing, and makes its result of those it was given. -/
structure Walks {β : Type} (d : Dialogue ServiceError β)
    (exchange : PageRequest → Except ServiceError (Page α) → Exchange) (last : Page α → Bool)
    (finish : List (Page α) → β) : Prop where
  /-- What is said is a walk from page one on over pages of a hundred items, and every such walk can
  be said. -/
  transcripts : ∀ log result, d.Transcript log result ↔
    ∃ answers, IsWalk last 500 answers ∧
      log = answers.mapIdx (fun i answer => exchange ⟨UInt32.ofNat (i + 1), 100⟩ answer) ∧
      result = (answers.mapM id).map finish
  /-- Every remote answers one, from every state. -/
  runs : ∀ {σ : Type} (remote : Remote σ) (s : σ),
    ∃ answers, IsWalk last 500 answers ∧
      d.log remote s =
        answers.mapIdx (fun i answer => exchange ⟨UInt32.ofNat (i + 1), 100⟩ answer) ∧
      (d.run remote s).1 = (answers.mapM id).map finish

theorem Walks.of_eq_pagesFrom {β : Type} {d : Dialogue ServiceError β}
    {ask : PageRequest → Dialogue ServiceError (Page α)}
    {exchange : PageRequest → Except ServiceError (Page α) → Exchange} {last : Page α → Bool}
    {finish : List (Page α) → β}
    (hask : ∀ request log result, (ask request).Transcript log result ↔
      log = [exchange request result])
    (hd : d = pagesFrom ask last walkLimit firstPage >>= fun walked => pure (finish walked)) :
    Walks d exchange last finish := by
  have htranscripts : ∀ log result, d.Transcript log result ↔
      ∃ answers, IsWalk last 500 answers ∧
        log = answers.mapIdx (fun i answer => exchange ⟨UInt32.ofNat (i + 1), 100⟩ answer) ∧
        result = (answers.mapM id).map finish := by
    intro log result
    rw [hd, Dialogue.transcript_map_iff]
    change (∃ r, (pagesFrom ask last walkLimit (Zone.walkPage 0)).Transcript log r ∧ _) ↔ _
    simp only [transcript_pagesFrom_iff hask, pageLog_zero]
    constructor
    · rintro ⟨_, ⟨answers, hwalk, hlog, rfl⟩, rfl⟩
      exact ⟨answers, hwalk, hlog, rfl⟩
    · rintro ⟨answers, hwalk, hlog, rfl⟩
      exact ⟨_, ⟨answers, hwalk, hlog, rfl⟩, rfl⟩
  exact ⟨htranscripts, fun remote s =>
    (htranscripts _ _).mp (Dialogue.transcript_log remote d s)⟩

/-- Both walks ask for page after page until one fails, is empty or has no successor, or five
hundred have been asked for, and the search for a host also ends at a page that has it. The one
returns all items that it was given, and the other the first with the name. -/
theorem walks_outcome (domain : String) (query : RecordQuery) (host name : String) :
    Walks (allRecords domain query)
      (fun request answer => ⟨.listRecords domain query request, answer⟩)
      (fun page => !page.hasMore || page.items.isEmpty)
      (fun pages => pages.flatMap (·.items)) ∧
    Walks (weightedHost? domain host name)
      (fun request answer => ⟨.listWeightedHosts domain (some host) request, answer⟩)
      (fun page => (!page.hasMore || page.items.isEmpty) ||
        page.items.any fun h => Text.sameLetters h.name name)
      (fun pages => (pages.flatMap (·.items)).find? fun h => Text.sameLetters h.name name) :=
  ⟨.of_eq_pagesFrom (fun _ _ _ => Dialogue.transcript_call_iff) (recordsFrom_eq ..),
    .of_eq_pagesFrom (fun _ _ _ => Dialogue.transcript_call_iff) (weightedHostFrom_eq ..)⟩

end Remote

end WeightedDns
