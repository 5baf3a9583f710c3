import WeightedDns.Proofs.Create.Repeat

/-!
# Records that a create takes over

A create takes the first listed record of the value of an entry, and looks at line and time to live
only then. So it writes the core of no record exactly if the first one fits each entry
(`create_adopts_iff`): a record that fits is passed over where one of another line or time to live
is listed before it, and that one is rewritten.
-/

namespace WeightedDns

open Lifecycle

/-- Whether a call writes the core of a record: adds a record or changes one. -/
def Call.writesCore : Call → Bool
  | .addRecord _ | .changeRecord _ => true
  | _ => false

theorem Call.kind_ne_addRecord {c : Call} (h : c.writesCore = false) : c.kind ≠ .addRecord := by
  cases c <;> simp_all [kind, writesCore]

namespace Lifecycle

/-- The first known record of the value of an entry matches the entry. -/
def FirstMatches (s : RecordSet) (known : List StoredRecord) (e : Entry) : Prop :=
  ∃ r, known.find? (fun r => r.value == e.value) = some r ∧ coreMatches r s e = true

section

variable {s : RecordSet} {known : List StoredRecord} {e : Entry} {entries : List Entry}

theorem FirstMatches.ensure_eq (h : FirstMatches s known e) :
    ∃ found, ensure s known e = .done found := by
  obtain ⟨r, hfind, hmatches⟩ := h
  exact ⟨(r.id, .of r), by simp [ensure, hfind, hmatches]⟩

/-- Else the first call for the entry writes the core of a record. -/
theorem exists_ensure_ask (h : ¬ FirstMatches s known e) :
    ∃ c next, ensure s known e = .ask c next ∧ c.writesCore = true := by
  cases hfind : known.find? fun r => r.value == e.value with
  | none =>
    simp only [ensure, hfind]
    exact ⟨.addRecord _, _, rfl, rfl⟩
  | some r =>
    have hmatches : coreMatches r s e = false := by
      rw [← Bool.not_eq_true]
      exact fun hmatches => h ⟨r, hfind, hmatches⟩
    simp only [ensure, hfind, hmatches]
    exact ⟨.changeRecord _, _, rfl, rfl⟩

theorem exists_ensureAll_eq_done (h : ∀ e ∈ entries, FirstMatches s known e) :
    ∃ found, ensureAll s known entries = .done found := by
  induction entries with
  | nil => exact ⟨[], rfl⟩
  | cons e rest ih =>
    obtain ⟨first, hfirst⟩ := (h e List.mem_cons_self).ensure_eq
    obtain ⟨others, hothers⟩ := ih fun e' he' => h e' (List.mem_cons_of_mem _ he')
    refine ⟨first :: others, ?_⟩
    rw [ensureAll, hfirst, Dialogue.done_bind, hothers]
    rfl

theorem exists_ensureAll_ask (h : ¬ ∀ e ∈ entries, FirstMatches s known e) :
    ∃ c next, ensureAll s known entries = .ask c next ∧ c.writesCore = true := by
  -- by induction on the entries: those before the first one without a match make no call
  induction entries with
  | nil => exact absurd (fun _ he => nomatch he) h
  | cons e rest ih =>
    by_cases hfirst : FirstMatches s known e
    · obtain ⟨first, hdone⟩ := hfirst.ensure_eq
      have hlater : ¬ ∀ e ∈ rest, FirstMatches s known e := fun hrest =>
        h (List.forall_mem_cons.mpr ⟨hfirst, hrest⟩)
      obtain ⟨c, next, hask, hwrites⟩ := ih hlater
      rw [ensureAll, hdone, Dialogue.done_bind, hask, Dialogue.ask_bind]
      exact ⟨c, _, rfl, hwrites⟩
    · obtain ⟨c, next, hask, hwrites⟩ := exists_ensure_ask hfirst
      rw [ensureAll, hask, Dialogue.ask_bind]
      exact ⟨c, _, rfl, hwrites⟩

theorem writesCore_of_looks {c : Call} (h : c.looks = true) : c.writesCore = false := by
  cases c <;> first | rfl | cases h

end

end Lifecycle

namespace Zone

variable {z : Zone} {s : RecordSet} {e : Entry}

theorem only_whenSome {α : Type} {p : Call → Prop} (a : Option α) {f : α → Operation Unit}
    (h : ∀ a, (f a).Only p) : (whenSome a f).Only p := by
  cases a with
  | none => trivial
  | some a => exact h a

theorem only_weighGroup {p : Call → Prop} (hswitch : ∀ request, p (.setWeighting request))
    (hweight : ∀ id weight, p (.setWeight id weight)) (s : RecordSet) (ids : List String) :
    (weighGroup s ids).Only p := by
  unfold weighGroup
  split
  · rw [weighAll_eq]
    refine Dialogue.Only.bind (only_attempt (hswitch _) _) fun _ => only_each fun x _ => ?_
    exact only_whenSome _ fun weight => only_attempt (hweight x.1 weight) _
  · trivial

theorem only_dress {p : Call → Prop} (hremark : ∀ id remark, p (.setRemark id remark))
    (hstatus : ∀ id status, p (.setStatus id status)) (id : String) (remark : Option String)
    (status : Option Switch) : (dress id remark status).Only p := by
  refine Dialogue.Only.bind (only_whenSome _ fun remark => ?_) fun _ =>
    only_whenSome _ fun status => ?_
  · exact only_attempt (hremark id remark) _
  · exact only_attempt (hstatus id status) _

theorem only_applyAllExtras {p : Call → Prop} (hremark : ∀ id remark, p (.setRemark id remark))
    (hstatus : ∀ id status, p (.setStatus id status)) (items : List ((String × Extras) × Entry)) :
    (applyAllExtras items).Only p := by
  rw [applyAllExtras_eq]
  exact only_each fun x _ => only_dress hremark hstatus _ _ _

/-- Once every entry has its record, no core is written any more. -/
theorem finish_keeps_cores (s : RecordSet) (found : List (String × Extras)) :
    (finish s found).Only fun c => c.writesCore = false := by
  have hread : (resourceId (found.map (·.1)) >>= fun id => readBack id s).Looks :=
    (looks_resourceId _).bind fun id => looks_readBack id s
  unfold finish
  exact (only_weighGroup (fun _ => rfl) (fun _ _ => rfl) s _).bind fun _ =>
    (only_applyAllExtras (fun _ _ => rfl) (fun _ _ => rfl) _).bind fun _ =>
      hread.mono fun _ => writesCore_of_looks

theorem looks_listed (s : RecordSet) : (listed s).Looks :=
  ((looks_recordsFrom _ _ _ _).mapError _).bind fun _ => trivial

theorem run_lookUp (calm : z.failures = []) {preflight : Bool}
    (hname : preflight = true → s.domain = domain) :
    (lookUp preflight s).run remote z = (.ok (), z) := by
  have hensures : (lookUp preflight s).Ensures remote (fun _ _ => True) (fun _ z' => z' = z)
      (fun _ _ => False) z := by
    unfold lookUp
    split
    · rename_i hpreflight
      rw [Dialogue.ensures_bind]
      refine ensures_attempt (.inl calm) trivial ?_
      simp only [perform, hname hpreflight, if_true]
      exact ⟨trivial, rfl⟩
    · rfl
  obtain ⟨_, _, hrun, rfl⟩ := hensures.exists_run
  exact hrun

theorem run_listed (calm : z.failures = []) (s : RecordSet) :
    (listed s).run remote z = (.ok (z.listing s), z) := by
  have hensures : (listed s).Ensures remote (fun _ _ => True)
      (fun known z' => known = z.listing s ∧ z' = z) (fun _ _ => False) z :=
    ensures_listed (.inl calm) (fun _ _ => trivial) ⟨rfl, rfl⟩
  obtain ⟨_, _, hrun, rfl, rfl⟩ := hensures.exists_run
  exact hrun

section

variable (calm : z.failures = []) {preflight : Bool} (valid : s.fault? = none)
  (hname : preflight = true → s.domain = domain)
include calm valid hname

/-- Up to the records of its entries a create only looks, and it learns the listing. -/
theorem steps_create :
    ∃ looked, (create preflight s).steps remote z =
        looked ++ (ensureAll s (z.listing s) s.entries >>= finish s).steps remote z ∧
      ∀ x ∈ looked, x.1.writesCore = false := by
  refine ⟨(lookUp preflight s).steps remote z ++ (listed s).steps remote z, ?_, ?_⟩
  · rw [create_eq valid, Dialogue.steps_bind_of_run (run_lookUp calm hname),
      Dialogue.steps_bind_of_run (run_listed calm s), List.append_assoc]
  · have hlookUp : (lookUp preflight s).Only fun c => c.writesCore = false :=
      only_lookUp fun _ => rfl
    intro x hx
    rcases List.mem_append.mp hx with hx | hx
    · exact (hlookUp.ensures remote z).steps x hx
    · exact writesCore_of_looks (((looks_listed s).ensures remote z).steps x hx)

theorem run_create_eq :
    (create preflight s).run remote z =
      (ensureAll s (z.listing s) s.entries >>= finish s).run remote z := by
  rw [create_eq valid, Dialogue.run_bind, run_lookUp calm hname]
  dsimp only
  rw [Dialogue.run_bind, run_listed calm s]

/-- Whether a create writes the core of a record is decided by the first listed records. -/
theorem keeps_cores_iff :
    (∀ x ∈ (create preflight s).steps remote z, x.1.writesCore = false) ↔
      ∀ e ∈ s.entries, FirstMatches s (z.listing s) e := by
  obtain ⟨looked, hsteps, hlooked⟩ := steps_create calm valid hname
  rw [hsteps, List.forall_mem_append, and_iff_right hlooked]
  constructor
  · intro hkeeps
    by_contra hnot
    obtain ⟨c, next, hask, hwrites⟩ := exists_ensureAll_ask hnot
    rw [hask, Dialogue.ask_bind] at hkeeps
    have hfirst : c.writesCore = false := hkeeps _ List.mem_cons_self
    rw [hwrites] at hfirst
    cases hfirst
  · intro hmatches
    obtain ⟨found, hfound⟩ := exists_ensureAll_eq_done hmatches
    rw [hfound, Dialogue.done_bind]
    exact ((finish_keeps_cores s found).ensures remote z).steps

/-- Where a record of its value is listed for every entry, none is added. -/
theorem create_adds_none
    (hlisted : ∀ e ∈ s.entries, ∃ r ∈ z.listing s, r.value = e.value) :
    ∀ x ∈ (create preflight s).steps remote z, x.1.kind ≠ .addRecord := by
  have hensure : (ensureAll s (z.listing s) s.entries).Only fun c => c.kind ≠ .addRecord := by
    generalize s.entries = entries at hlisted
    induction entries with
    | nil => trivial
    | cons e rest ih =>
      refine Dialogue.Only.bind ?_ fun _ =>
        (ih fun e' he' => hlisted e' (List.mem_cons_of_mem _ he')).bind fun _ => trivial
      obtain ⟨r, hr, hvalue⟩ := hlisted e List.mem_cons_self
      have hsome : ((z.listing s).find? fun r => r.value == e.value).isSome :=
        List.find?_isSome.mpr ⟨r, hr, by simp [hvalue]⟩
      obtain ⟨first, hfind⟩ := Option.isSome_iff_exists.mp hsome
      simp only [ensure, hfind]
      split
      · have hchange : (overwrite s e first.id).Only fun c => c.kind ≠ .addRecord :=
          only_attempt (p := fun c => c.kind ≠ .addRecord) (fun hkind => by cases hkind) _
        exact hchange.bind fun _ => trivial
      · trivial
  obtain ⟨looked, hsteps, hlooked⟩ := steps_create calm valid hname
  rw [hsteps, List.forall_mem_append]
  refine ⟨fun x hx => Call.kind_ne_addRecord (hlooked x hx), ?_⟩
  have hfinish : ∀ found, (finish s found).Only fun c => c.kind ≠ .addRecord := fun found =>
    (finish_keeps_cores s found).mono fun _ => Call.kind_ne_addRecord
  exact ((hensure.bind hfinish).ensures remote z).steps

/-- With a first record that matches for every entry, a create succeeds. -/
theorem exists_founded_of_matches (tidy : z.Tidy)
    (hmatches : ∀ e ∈ s.entries, FirstMatches s (z.listing s) e) :
    ∃ t z', (create preflight s).run remote z = (.ok t, z') ∧ Founded z s t z' := by
  have admissible := RecordSet.fault?_eq_none_iff.mp valid
  obtain ⟨found, hfound⟩ := exists_ensureAll_eq_done hmatches
  -- every error is accepted here, and there is none, as no call is made
  have hsupplied : (ensureAll s (z.listing s) s.entries).Ensures remote (fun _ _ => True)
      (Supplied z s [] z s.entries) (fun _ _ => True) z :=
    (Grown.refl tidy s).ensureAll (.inr fun _ _ => trivial) (fun _ _ _ => trivial) tidy admissible
      (List.nil_append _) fun _ _ _ => trivial
  rw [hfound, Dialogue.ensures_done] at hsupplied
  have hensures : (finish s found).Ensures remote (fun _ _ => True) (fun t z' => Founded z s t z')
      (fun _ _ => False) z :=
    Grown.finish (.inl calm) (fun _ _ _ => trivial) hsupplied.grown hsupplied.size hsupplied.noted
      admissible fun _ _ h => h
  rw [run_create_eq calm valid hname, hfound]
  exact hensures.exists_run

end

/-- Of a zone that is not found nothing is written. -/
theorem refused_keeps_cores (calm : z.failures = []) (valid : s.fault? = none)
    (hname : s.domain ≠ domain) :
    ∀ x ∈ (create true s).steps remote z, x.1.writesCore = false := by
  have hensures : (create true s).Ensures remote (fun c _ => c.writesCore = false)
      (fun _ _ => True) (fun _ _ => True) z := by
    rw [create_eq valid, Dialogue.ensures_bind]
    unfold lookUp
    rw [if_pos rfl, Dialogue.ensures_bind]
    refine ensures_attempt (.inl calm) rfl ?_
    simp only [perform, if_neg hname]
    exact ⟨rfl, trivial⟩
  exact hensures.steps

/-- The first record that is stored for an entry is the first listed one. -/
theorem firstMatches_iff (hreach : z.records.length ≤ walkReach)
    (hstored : ∃ r ∈ z.records, r.Fits s e) :
    FirstMatches s (z.listing s) e ↔
      ∀ r, (z.records.find? fun r =>
        r.domain == s.domain && r.host == s.host && r.type == s.type && r.value == e.value) =
          some r → r.Fits s e := by
  rw [FirstMatches, find?_listing s e.value hreach]
  constructor
  · rintro ⟨r, hfind, hmatches⟩ r' hfind'
    obtain rfl := Option.some.inj (hfind.symm.trans hfind')
    have hfound := List.find?_some hfind
    simp only [Bool.and_eq_true, beq_iff_eq] at hfound
    exact .of_coreMatches hfound.1.1.1 hfound.1.1.2 hmatches
  · intro hfits
    obtain ⟨r, hr, hstored⟩ := hstored
    have hsome : (z.records.find? fun r => r.domain == s.domain && r.host == s.host &&
        r.type == s.type && r.value == e.value).isSome :=
      List.find?_isSome.mpr ⟨r, hr, by
        simp [hstored.domain, hstored.host, hstored.type, hstored.value]⟩
    obtain ⟨first, hfind⟩ := Option.isSome_iff_exists.mp hsome
    exact ⟨first, hfind, (hfits first hfind).coreMatches⟩

/-- Where a record that fits is stored for every entry, a create adds and changes no record exactly
if the first one listed for each entry is such a record, or the zone is looked up and not found. In
the former case it succeeds with these records, and all others are as they were, those on other
lines among them. As far as the listing reaches, none is added in any case, and the first record
listed for an entry is the first of its zone, host, type and value that is stored. -/
theorem create_adopts_iff (h : z.Reachable) (calm : z.failures = []) (preflight : Bool)
    (valid : s.fault? = none) (hstored : ∀ e ∈ s.entries, ∃ r ∈ z.records, r.Fits s e) :
    ((∀ x ∈ (create preflight s).steps remote z, x.1.writesCore = false) ↔
      (preflight = true ∧ s.domain ≠ domain) ∨
        ∀ e ∈ s.entries, FirstMatches s (z.listing s) e) ∧
    ((∀ e ∈ s.entries, FirstMatches s (z.listing s) e) →
      (preflight = true → s.domain = domain) →
      ∃ t z', (create preflight s).run remote z = (.ok t, z') ∧
        (∀ (i : Nat) (e : Entry), s.entries[i]? = some e →
          ∃ r ∈ z.records, t.id.ids[i]? = some r.id ∧ r.Fits s e) ∧
        ∀ r ∈ z.records, r.id ∉ t.id.ids ∨ r.line ≠ s.line → z'.record? r.id = some r) ∧
    (z.records.length ≤ walkReach →
      (∀ x ∈ (create preflight s).steps remote z, x.1.kind ≠ .addRecord) ∧
      ∀ e ∈ s.entries, FirstMatches s (z.listing s) e ↔
        ∀ r, (z.records.find? fun r => r.domain == s.domain && r.host == s.host &&
          r.type == s.type && r.value == e.value) = some r → r.Fits s e) := by
  by_cases hrefused : preflight = true ∧ s.domain ≠ domain
  · obtain ⟨rfl, hother⟩ := hrefused
    have hkeeps := refused_keeps_cores calm valid hother
    refine ⟨iff_of_true hkeeps (.inl ⟨rfl, hother⟩), ?_, ?_⟩
    · intro _ hname
      exact absurd (hname rfl) hother
    · intro hreach
      exact ⟨fun x hx => Call.kind_ne_addRecord (hkeeps x hx),
        fun e he => firstMatches_iff hreach (hstored e he)⟩
  have hname : preflight = true → s.domain = domain := by
    intro hpreflight
    by_contra hother
    exact hrefused ⟨hpreflight, hother⟩
  refine ⟨(keeps_cores_iff calm valid hname).trans (or_iff_right hrefused).symm, ?_, ?_⟩
  · intro hmatches _
    obtain ⟨t, z', hrun, hfounded⟩ := exists_founded_of_matches calm valid hname h.tidy hmatches
    have htaken : ∀ (i : Nat) (e : Entry), s.entries[i]? = some e →
        ∃ r ∈ z.records, t.id.ids[i]? = some r.id ∧ r.Fits s e := by
      intro i e he
      obtain ⟨r, hfind, hmatches⟩ := hmatches e (List.mem_of_getElem? he)
      obtain ⟨hr, hdomain, hhost, -⟩ := mem_listing (List.mem_of_find?_eq_some hfind)
      obtain ⟨id, hid⟩ := hfounded.exists_id he
      obtain rfl := hfounded.first i e id he hid r hfind
      exact ⟨r, hr, hid, .of_coreMatches hdomain hhost hmatches⟩
    refine ⟨t, z', hrun, htaken, ?_⟩
    intro r hr hother
    have hid : r.id ∉ t.id.ids := by
      rcases hother with hid | hline
      · exact hid
      · -- a record that has been taken over is on the line of the set
        intro hid
        obtain ⟨i, hi⟩ := List.mem_iff_getElem?.mp hid
        have hlt := (List.getElem?_eq_some_iff.mp hi).1
        rw [hfounded.size] at hlt
        obtain ⟨r', hr', hid', hfits⟩ := htaken i _ (List.getElem?_eq_getElem hlt)
        have hsame := h.tidy.record?_of_mem hr'
        rw [← Option.some.inj (hi.symm.trans hid'), h.tidy.record?_of_mem hr] at hsame
        obtain rfl := Option.some.inj hsame
        exact hline hfits.line
    rw [hfounded.others r.id hid]
    exact h.tidy.record?_of_mem hr
  · intro hreach
    have hlisted : ∀ e ∈ s.entries, ∃ r ∈ z.listing s, r.value = e.value := by
      intro e he
      obtain ⟨r, hr, hfits⟩ := hstored e he
      exact ⟨r, listing_complete hr hfits.domain hfits.host hfits.type hreach, hfits.value⟩
    exact ⟨create_adds_none calm valid hname hlisted,
      fun e he => firstMatches_iff hreach (hstored e he)⟩

/-- Two records of one host, type and value, one of which has been moved to another line. -/
def twoLines (moved : String) : Zone :=
  (((empty.seed "www" .a "192.0.2.1" 600).seed "www" .a "192.0.2.1" 600).answer
    (.changeRecord ⟨moved, "www", .a, "192.0.2.1", 600, "telecom", none⟩)).2

theorem twoLines_reachable (moved : String) : (twoLines moved).Reachable :=
  .answer _ (.seed _ _ _ _ (.seed _ _ _ _ .empty))

/-- The record that an entry for the value fits. -/
def fitting (id : String) : StoredRecord :=
  ⟨id, "example.com", "www", .a, "192.0.2.1", 600, RecordSet.defaultLine, some 1, .enabled, none,
    none, false⟩

theorem fitting_fits (id : String) :
    ∀ e ∈ (plain "www" ["192.0.2.1"]).entries, (fitting id).Fits (plain "www" ["192.0.2.1"]) e := by
  intro e he
  obtain rfl := List.mem_singleton.mp he
  exact ⟨⟨rfl, rfl, rfl, rfl, rfl, rfl⟩, .inl rfl⟩

/-- The record on the line of the set is listed first. -/
theorem twoLines_adopted :
    (∀ x ∈ (create true (plain "www" ["192.0.2.1"])).steps remote (twoLines "1001"),
      x.1.writesCore = false) ∧
    ∃ t z', (create true (plain "www" ["192.0.2.1"])).run remote (twoLines "1001") = (.ok t, z') ∧
      z'.record? "1001" = (twoLines "1001").record? "1001" := by
  have hmem : fitting "1000" ∈ (twoLines "1001").records := by decide
  have hmatches : ∀ e ∈ (plain "www" ["192.0.2.1"]).entries, FirstMatches
      (plain "www" ["192.0.2.1"]) ((twoLines "1001").listing (plain "www" ["192.0.2.1"])) e := by
    intro e he
    obtain rfl := List.mem_singleton.mp he
    exact ⟨fitting "1000", by decide, by decide⟩
  obtain ⟨hiff, hadopts, -⟩ := create_adopts_iff (twoLines_reachable "1001") rfl true (by decide)
    fun e he => ⟨_, hmem, fitting_fits "1000" e he⟩
  obtain ⟨t, z', hrun, -, hothers⟩ := hadopts hmatches fun _ => rfl
  refine ⟨hiff.mpr (.inr hmatches), t, z', hrun, ?_⟩
  have hother : { fitting "1001" with line := "telecom" } ∈ (twoLines "1001").records := by decide
  exact (hothers _ hother (.inr (by decide))).trans (by decide)

/-- A record that fits is passed over where one of another line is listed before it. -/
theorem create_not_always_adopts :
    ¬ ∀ (z : Zone) (preflight : Bool) (s : RecordSet), z.Reachable → z.failures = [] →
      s.fault? = none → s.domain = domain → (∀ e ∈ s.entries, ∃ r ∈ z.records, r.Fits s e) →
      ∀ x ∈ (create preflight s).steps remote z, x.1.writesCore = false := by
  intro h
  have hmem : fitting "1001" ∈ (twoLines "1000").records := by decide
  have hkeeps := h (twoLines "1000") true (plain "www" ["192.0.2.1"]) (twoLines_reachable "1000")
    rfl (by decide) rfl fun e he => ⟨_, hmem, fitting_fits "1001" e he⟩
  have hwrites : ((create true (plain "www" ["192.0.2.1"])).steps remote (twoLines "1000")).any
      (fun x => x.1.writesCore) = true := by decide +kernel
  obtain ⟨x, hx, hcore⟩ := List.any_eq_true.mp hwrites
  rw [hkeeps x hx] at hcore
  cases hcore

end Zone

end WeightedDns
