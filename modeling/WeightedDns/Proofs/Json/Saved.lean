import WeightedDns.CommandLine.Run
import WeightedDns.Proofs.Json.Reordering
import WeightedDns.Proofs.Record.ResourceId
import WeightedDns.Remote.Page
import WeightedDns.Wire.Credentials

/-!
# What is saved is read back

A tracked set that a command prints is what a later command reads from the file, and every record
that is both written as JSON and read from it comes back as it was (`saved_survives`). This holds
whatever the order of the members is, since printing puts them in the order of their keys.
-/

namespace WeightedDns

open Json

/-! ## Records -/

@[simp] theorem Json.Reordering.apply_recordType (r : Reordering) (t : RecordType) :
    r.apply t.toJson = t.toJson :=
  r.apply_text _

@[simp] theorem Json.Reordering.apply_switch (r : Reordering) (s : Switch) :
    r.apply s.toJson = s.toJson :=
  r.apply_text _

@[simp] theorem asOptional?_recordType (t : Option RecordType) :
    asOptional? (RecordType.ofJson? isNull) (ofOption RecordType.toJson t) = some t :=
  asOptional?_ofOption (RecordType.ofJson?_toJson isNull) rfl t

theorem StoredRecord.survives : Survives toJson ofJson? := by
  intro r a
  obtain ⟨m, hm, hfinds, -⟩ := r.exists_members? memberNames false
    (rfl : a.toJson = .object _) (by decide) (.refl _)
  simp only [List.forall_mem_cons, Members.Finds] at hfinds
  -- the values are put in before the binds are resolved, which would visit the rest at each
  rw [ofJson?, hm, Option.bind_eq_bind, Option.bind_some]
  simp only [hfinds, Reordering.apply_text, Reordering.apply_recordType, Reordering.apply_switch,
    Reordering.apply_ofOption, Reordering.apply_ofUInt32, Reordering.apply_ofUInt16,
    Reordering.apply_bool, asText?_text, RecordType.ofJson?_toJson, Switch.ofJson?_toJson,
    asOptional?_text, asUInt32?_ofUInt32, asOptional?_ofUInt32, asOptional?_ofUInt16, asBool?_bool]
  rfl

theorem DomainSummary.survives : Survives toJson ofJson? := by
  intro r a
  obtain ⟨m, hm, hfinds, -⟩ := r.exists_members? ["domainId", "domainName", "recordCount"] false
    (rfl : a.toJson = .object _) (by decide) (.refl _)
  simp only [List.forall_mem_cons, Members.Finds] at hfinds
  simp [ofJson?, hm, hfinds]

theorem WeightedHost.survives : Survives toJson ofJson? := by
  intro r a
  obtain ⟨m, hm, hfinds, -⟩ :=
    r.exists_members? ["subDomain", "recordCount", "open", "recordType", "line"] false
      (rfl : a.toJson = .object _) (by decide) (.refl _)
  simp only [List.forall_mem_cons, Members.Finds] at hfinds
  simp [ofJson?, hm, hfinds]

theorem RecordQuery.survives : Survives toJson ofJson? := by
  intro r a
  obtain ⟨m, hm, hfinds, -⟩ := r.exists_members? ["rrKeyword", "recordType", "valueKeyword"] false
    (rfl : a.toJson = .object _) (by decide) (.refl _)
  simp only [List.forall_mem_cons, Members.Finds] at hfinds
  simp [ofJson?, hm, hfinds]

theorem NewRecord.survives : Survives toJson ofJson? := by
  intro r a
  obtain ⟨m, hm, hfinds, -⟩ :=
    r.exists_members? ["domainName", "rr", "recordType", "value", "ttl", "line", "priority"] false
      (rfl : a.toJson = .object _) (by decide) (.refl _)
  simp only [List.forall_mem_cons, Members.Finds] at hfinds
  simp [ofJson?, hm, hfinds]

theorem RecordChange.survives : Survives toJson ofJson? := by
  intro r a
  obtain ⟨m, hm, hfinds, -⟩ :=
    r.exists_members? ["recordId", "rr", "recordType", "value", "ttl", "line", "priority"] false
      (rfl : a.toJson = .object _) (by decide) (.refl _)
  simp only [List.forall_mem_cons, Members.Finds] at hfinds
  simp [ofJson?, hm, hfinds]

theorem WeightingRequest.survives : Survives toJson ofJson? := by
  intro r a
  obtain ⟨m, hm, hfinds, -⟩ :=
    r.exists_members? ["domainName", "rr", "recordType", "line", "open"] false
      (rfl : a.toJson = .object _) (by decide) (.refl _)
  simp only [List.forall_mem_cons, Members.Finds] at hfinds
  simp [ofJson?, hm, hfinds]

theorem PageRequest.survives : Survives toJson ofJson? := by
  intro r a
  obtain ⟨m, hm, hfinds, -⟩ := r.exists_members? ["page", "pageSize"] false
    (rfl : a.toJson = .object _) (by decide) (.refl _)
  simp only [List.forall_mem_cons, Members.Finds] at hfinds
  simp [ofJson?, hm, hfinds]

section

variable {α : Type} {write : α → Json} {read : Json → Option α}

/-- A page is read back if its items are. -/
theorem Page.ofJson?_apply (r : Reordering) (h : ∀ a, read (r.apply (write a)) = some a)
    (p : Page α) : ofJson? read (r.apply (p.toJson write)) = some p := by
  obtain ⟨m, hm, hfinds, -⟩ :=
    r.exists_members? ["items", "page", "pageSize", "totalCount", "hasMore"] false
      (rfl : p.toJson write = .object _) (by decide) (.refl _)
  simp only [List.forall_mem_cons, Members.Finds] at hfinds
  simp [ofJson?, hm, hfinds, asList?_ofList h]

theorem Page.roundTrips (h : RoundTrips write read) : RoundTrips (toJson write) (ofJson? read) :=
  fun p => ⟨ofJson?_apply .unchanged (fun a => (h a).1) p,
    ofJson?_apply .settling (fun a => (h a).2) p⟩

end

theorem Wire.Credentials.survives : Survives toJson ofJson? := by
  intro r a
  obtain ⟨m, hm, hfinds, -⟩ := r.exists_members? ["accessKeyId", "accessKeySecret"] false
    (rfl : a.toJson = .object _) (by decide) (.refl _)
  simp only [List.forall_mem_cons, Members.Finds] at hfinds
  simp [ofJson?, hm, hfinds]

/-! ## Record sets -/

section

variable (payload : Json → Bool)

theorem Entry.survives : Survives toJson (ofJson? payload) := by
  intro r a
  obtain ⟨m, hm, hfinds, hlacks⟩ := r.exists_members? memberNames true
    (rfl : a.toJson = .object _) (by decide)
    (by
      rw [List.map_append]
      exact (List.Sublist.refl _).append (keys_optionalMember_sublist _ _ _))
  rw [List.forall_mem_append] at hfinds
  have hremark : m.withDefault "remark" (asOptional? asText?) none = some a.remark :=
    withDefault_optionalMember hfinds.2 (fun h => hlacks _ (by rw [h]; simp [optionalMember]))
      (by simp) rfl
  have hothers := hfinds.1
  simp only [List.forall_mem_cons, Members.Finds] at hothers
  simp [ofJson?, hm, hothers, hremark]

theorem RecordSet.survives : Survives toJson (ofJson? payload) := by
  intro r a
  obtain ⟨m, hm, hfinds, hlacks⟩ := r.exists_members? memberNames true
    (rfl : a.toJson = .object _) (by decide)
    (by
      rw [List.map_append, List.map_append]
      exact ((List.Sublist.refl _).append (keys_optionalMember_sublist _ _ _)).append (.refl _))
  rw [List.forall_mem_append, List.forall_mem_append] at hfinds
  obtain ⟨⟨hfirst, hpriority⟩, hlast⟩ := hfinds
  have hpriority : m.withDefault "priority" (asOptional? asUInt16?) none = some a.priority :=
    withDefault_optionalMember hpriority (fun h => hlacks _ (by rw [h]; simp [optionalMember]))
      (by simp) rfl
  simp only [List.forall_mem_cons, Members.Finds] at hfirst hlast
  simp [ofJson?, hm, hfirst, hlast, hpriority, asList?_ofList (Entry.survives payload r)]

end

theorem Entry.plain_toJson (e : Entry) : Plain e.toJson := by
  refine .object ?_
  simp only [List.forall_mem_append, List.forall_mem_cons]
  exact ⟨⟨.text _, plain_ofUInt32 _, plain_ofUInt32 _, .text _, fun _ h => nomatch h⟩,
    forall_mem_optionalMember _ .text _⟩

theorem RecordSet.plain_toJson (s : RecordSet) : Plain s.toJson := by
  refine .object ?_
  simp only [List.forall_mem_append, List.forall_mem_cons]
  exact ⟨⟨⟨.text _, .text _, .text _, .text _, fun _ h => nomatch h⟩,
    forall_mem_optionalMember _ plain_ofUInt16 _⟩, .text _, plain_ofList Entry.plain_toJson _,
    fun _ h => nomatch h⟩

/-! ## Errors -/

namespace ServiceError

theorem memberNames?_code (cause : Cause) :
    memberNames? cause.code = some (cause.members.map (·.1)) := by
  cases cause <;> rfl

theorem readCause?_code (r : Reordering) (cause : Cause) {m : Members}
    (hfinds : ∀ x ∈ cause.members, m.Finds x.1 (r.apply x.2)) :
    readCause? cause.code m = some cause := by
  cases cause
  all_goals
    simp only [Cause.members, List.forall_mem_cons, Members.Finds] at hfinds
    simp [readCause?, Cause.code, hfinds]

theorem readable_apply_members (r : Reordering) (cause : Cause) (depth : Nat) :
    ∀ m ∈ cause.members, (r.apply m.2).readable depth = true := by
  cases cause <;> simp [Cause.members]

/-- The keys of an error are different. -/
theorem nodup_keys (cause : Cause) :
    ("code" :: "provider" :: cause.members.map (·.1)).Nodup := by
  cases cause <;> simp [Cause.members]

/-- The code of an error is found wherever it stands, and leaves the other members behind. -/
theorem survives : Survives toJson ofJson? := by
  intro r e
  have hkeys := nodup_keys e.cause
  obtain ⟨reordered, happly, hperm⟩ := r.apply_object
    (("code", .text e.cause.code) :: ("provider", .text e.provider) :: e.cause.members) hkeys
  rw [List.nodup_cons] at hkeys
  rw [List.map_cons, r.apply_text] at hperm
  have hreadable : (Json.object reordered).readable depthLimit = true := by
    refine readableMembers_iff.mpr fun m hm => ?_
    have hmembers : ∀ m ∈ ("code", .text e.cause.code) :: (("provider", .text e.provider) ::
        e.cause.members).map (fun m => (m.1, r.apply m.2)), m.2.readable 126 = true := by
      rw [List.forall_mem_cons, List.forall_mem_map, List.forall_mem_cons, r.apply_text]
      exact ⟨rfl, rfl, readable_apply_members r e.cause 126⟩
    exact hmembers m (hperm.mem_iff.mp hm)
  obtain ⟨hcode, hothers⟩ := filter_key_of_perm hperm (by
    rw [List.forall_mem_map]
    intro m hm (heq : m.1 = "code")
    have hmem : m.1 ∈ (("provider", Json.text e.provider) :: e.cause.members).map (·.1) :=
      List.mem_map_of_mem hm
    exact hkeys.1 (heq ▸ hmem))
  obtain ⟨m, hm, hfinds, -⟩ := Json.exists_members? false hkeys.2 (.refl _) hothers
  rw [List.forall_mem_cons] at hfinds
  obtain ⟨⟨hprovider, -⟩, hcause⟩ := hfinds
  rw [toJson, happly, ofJson?, hreadable]
  simp [hcode, readWith?, memberNames?_code, hm, hprovider, readCause?_code r e.cause hcause]

end ServiceError

/-! ## Tracked sets -/

namespace TrackedSet

theorem ofJson?_apply (r : Reordering) {t : TrackedSet} (hne : t.id.ids ≠ [])
    (h : ∀ s ∈ t.id.ids, ResourceId.IsPart s) : ofJson? (r.apply t.toJson) = some t := by
  obtain ⟨m, hm, hfinds, -⟩ := r.exists_members? ["id", "config"] false
    (rfl : t.toJson = .object _) (by decide) (.refl _)
  simp only [List.forall_mem_cons, Members.Finds] at hfinds
  have hid : ResourceId.ofJson? (r.apply t.id.toJson) = some t.id := by
    rw [ResourceId.toJson, r.apply_text]
    exact ResourceId.parse?_text hne h
  simp [ofJson?, hm, hfinds, hid, RecordSet.survives isNull r t.config]

theorem plain_toJson (t : TrackedSet) : Plain t.toJson := by
  refine .object ?_
  rw [List.forall_mem_cons, List.forall_mem_singleton]
  exact ⟨.text _, t.config.plain_toJson⟩

end TrackedSet

/-- A file with the printed form of a tracked set, with or without an end of line, holds that
set. -/
theorem CommandLine.trackedSet_printed {files : Files} {path lineEnd : String} {t : TrackedSet}
    (hne : t.id.ids ≠ []) (h : ∀ s ∈ t.id.ids, ResourceId.IsPart s)
    (hend : lineEnd ∈ ["", "\n"])
    (hfile : files path = .ok (printed t.toJson ++ lineEnd)) : files.trackedSet path = .ok t := by
  have hread : parse? (printed t.toJson ++ lineEnd) = some t.toJson.settled := by
    simp only [List.mem_cons, List.not_mem_nil, or_false] at hend
    obtain rfl | rfl := hend
    · exact parse?_pretty_append t.plain_toJson.settled "" rfl .nil
    · exact parse?_pretty_append t.plain_toJson.settled "\n" rfl (.newline [])
  have hset : TrackedSet.ofJson? t.toJson.settled = some t :=
    TrackedSet.ofJson?_apply .settling hne h
  have htext : files.text path = .ok (printed t.toJson ++ lineEnd) := by
    rw [Files.text, hfile]
    rfl
  rw [Files.trackedSet, htext]
  simp only [bind, Except.bind]
  rw [hread, Option.bind_some, hset]
  rfl

/-! ## What is saved -/

/-- A tracked set whose resource ID has parts is read back as JSON and from a file with what a
command has printed. All other records are read back as JSON without any condition. -/
theorem saved_survives :
    (∀ t : TrackedSet, t.id.ids ≠ [] → (∀ s ∈ t.id.ids, ResourceId.IsPart s) →
      TrackedSet.ofJson? t.toJson = some t ∧ TrackedSet.ofJson? t.toJson.settled = some t ∧
      ∀ (files : CommandLine.Files) (path lineEnd : String), lineEnd ∈ ["", "\n"] →
        files path = .ok (CommandLine.printed t.toJson ++ lineEnd) →
        files.trackedSet path = .ok t) ∧
    RoundTrips ServiceError.toJson ServiceError.ofJson? ∧
    RoundTrips StoredRecord.toJson StoredRecord.ofJson? ∧
    RoundTrips DomainSummary.toJson DomainSummary.ofJson? ∧
    RoundTrips WeightedHost.toJson WeightedHost.ofJson? ∧
    RoundTrips PageRequest.toJson PageRequest.ofJson? ∧
    (∀ {α : Type} {write : α → Json} {read : Json → Option α}, RoundTrips write read →
      RoundTrips (Page.toJson write) (Page.ofJson? read)) ∧
    RoundTrips RecordQuery.toJson RecordQuery.ofJson? ∧
    RoundTrips NewRecord.toJson NewRecord.ofJson? ∧
    RoundTrips RecordChange.toJson RecordChange.ofJson? ∧
    RoundTrips WeightingRequest.toJson WeightingRequest.ofJson? ∧
    RoundTrips Wire.Credentials.toJson Wire.Credentials.ofJson? ∧
    RoundTrips RecordType.toJson (RecordType.ofJson? isNull) ∧
    RoundTrips Switch.toJson (Switch.ofJson? isNull) ∧
    RoundTrips RecordSet.toJson (RecordSet.ofJson? isNull) ∧
    RoundTrips Entry.toJson (Entry.ofJson? isNull) := by
  refine ⟨fun t hne h => ⟨TrackedSet.ofJson?_apply .unchanged hne h,
    TrackedSet.ofJson?_apply .settling hne h,
    fun files path lineEnd hend hfile => CommandLine.trackedSet_printed hne h hend hfile⟩,
    ServiceError.survives.roundTrips, StoredRecord.survives.roundTrips,
    DomainSummary.survives.roundTrips, WeightedHost.survives.roundTrips,
    PageRequest.survives.roundTrips, Page.roundTrips, RecordQuery.survives.roundTrips,
    NewRecord.survives.roundTrips, RecordChange.survives.roundTrips,
    WeightingRequest.survives.roundTrips, Wire.Credentials.survives.roundTrips, ?_, ?_,
    (RecordSet.survives isNull).roundTrips, (Entry.survives isNull).roundTrips⟩
  · exact fun t => ⟨RecordType.ofJson?_toJson isNull t, RecordType.ofJson?_toJson isNull t⟩
  · exact fun s => ⟨Switch.ofJson?_toJson isNull s, Switch.ofJson?_toJson isNull s⟩

/-- A set of two mail hosts, one of them with an empty remark. -/
def mailSet : TrackedSet where
  id := ⟨["101", "102"]⟩
  config := ⟨"example.com", "@", .mx, "default", some 10, .enabled,
    [⟨"mx1.example.com", 600, 3, .enabled, some ""⟩,
      ⟨"mx2.example.com", 600, 1, .disabled, none⟩]⟩

/-- The mail set is saved and read back, and so are pages of record types. -/
theorem mailSet_survives :
    mailSet.id.ids ≠ [] ∧ (∀ s ∈ mailSet.id.ids, ResourceId.IsPart s) ∧
    TrackedSet.ofJson? mailSet.toJson = some mailSet ∧
    CommandLine.Files.trackedSet (fun _ => .ok (CommandLine.printed mailSet.toJson ++ "\n"))
      "state" = .ok mailSet ∧
    RoundTrips (Page.toJson RecordType.toJson) (Page.ofJson? (RecordType.ofJson? isNull)) := by
  obtain ⟨hset, -, -, -, -, -, hpage, -, -, -, -, -, htype, -⟩ := saved_survives
  have hparts : ∀ s ∈ mailSet.id.ids, ResourceId.IsPart s := by
    change ∀ s ∈ ["101", "102"], ResourceId.IsPart s
    decide
  obtain ⟨hplain, -, hfile⟩ := hset mailSet (by decide) hparts
  exact ⟨by decide, hparts, hplain, hfile _ _ "\n" (by decide) rfl, hpage htype⟩

end WeightedDns
