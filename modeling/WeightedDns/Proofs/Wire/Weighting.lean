import WeightedDns.Proofs.Create.Adoption
import WeightedDns.Proofs.Wire.Delivery
import WeightedDns.Wire.Script

/-!
# The weighting that is read

Every operation that returns a set looks its weighting up by the full name of the host: the first
listed host of that name counts, of whatever type and line it is (`weighting_of_first_host`). The
service keeps a weighting for each host, type and line, and it is switched by all three.
-/

namespace WeightedDns

open Lifecycle

/-- Whether a call asks for weighted hosts. -/
def Call.asksHosts : Call → Bool
  | .listWeightedHosts _ _ _ => true
  | _ => false

namespace Dialogue

variable {ε α β σ : Type}

/-- The state in which a dialogue makes the first of certain calls, the last state if it makes
none. -/
def stateAt (remote : Remote σ) (p : Call → Bool) : Dialogue ε α → σ → σ
  | .done _, s => s
  | .fail _, s => s
  | .ask c next, s =>
    if p c then s else (next (remote.answer c s).1).stateAt remote p (remote.answer c s).2

/-- What makes no such call comes before the first of them. -/
theorem stateAt_bind {remote : Remote σ} {p : Call → Bool} {d : Dialogue ε α}
    {f : α → Dialogue ε β} {s s' : σ} {a : α} (h : d.Only fun c => p c = false)
    (hrun : d.run remote s = (.ok a, s')) :
    (d >>= f).stateAt remote p s = (f a).stateAt remote p s' := by
  induction d generalizing s with
  | done b =>
    obtain ⟨hvalue, rfl⟩ := Prod.mk.inj hrun
    obtain rfl := Except.ok.inj hvalue
    rfl
  | fail e => cases hrun
  | ask c next ih =>
    rw [ask_bind, stateAt, h.1, if_neg (by decide)]
    exact ih _ (h.2 _) hrun

/-- What makes no call at all after it is not where the first of them is made. -/
theorem stateAt_bind_of_still {remote : Remote σ} {p : Call → Bool} {f : α → Dialogue ε β}
    (h : ∀ a s, (f a).stateAt remote p s = s) (d : Dialogue ε α) (s : σ) :
    (d >>= f).stateAt remote p s = d.stateAt remote p s := by
  induction d generalizing s with
  | done a => exact h a s
  | fail e => rfl
  | ask c next ih =>
    rw [ask_bind, stateAt, stateAt]
    split
    · rfl
    · exact ih _ _

end Dialogue

namespace Remote

variable {σ : Type}

/-- The weighted hosts that are listed from a page on: those on this page and the following ones,
up to one that is empty, has no successor or is refused, on at most `pages` of them. -/
def hostsFrom (remote : Remote σ) (domain host : String) (pages : Nat) (request : PageRequest)
    (s : σ) : List WeightedHost :=
  match pages with
  | 0 => []
  | pages + 1 =>
    match remote.answer (.listWeightedHosts domain (some host) request) s with
    | (.error _, _) => []
    | (.ok page, s) =>
      page.items ++
        if !page.hasMore || page.items.isEmpty then []
        else remote.hostsFrom domain host pages request.next s

/-- The weighted hosts that are listed for a host, as far as a walk reaches. -/
def hosts (remote : Remote σ) (domain host : String) (s : σ) : List WeightedHost :=
  remote.hostsFrom domain host walkLimit firstPage s

/-- A walk finds the first listed host of the name, although it stops at the page of that one. -/
theorem find?_hostsFrom {remote : Remote σ} {domain host name : String} {pages : Nat}
    {request : PageRequest} {s s' : σ} {found : Option WeightedHost}
    (hrun : (weightedHostFrom domain host name pages request).run remote s = (.ok found, s')) :
    (remote.hostsFrom domain host pages request s).find? (fun h => Text.sameLetters h.name name) =
      found := by
  induction pages generalizing request s with
  | zero =>
    obtain ⟨hvalue, -⟩ := Prod.mk.inj hrun
    exact Except.ok.inj hvalue
  | succ pages ih =>
    rw [weightedHostFrom] at hrun
    obtain ⟨page, s₁, hpage, hrest⟩ := Dialogue.exists_run_of_bind hrun
    rw [Dialogue.run_call] at hpage
    rw [hostsFrom, hpage]
    dsimp only
    rw [List.find?_append]
    cases hfind : page.items.find? fun h => Text.sameLetters h.name name with
    | some h =>
      rw [hfind] at hrest
      obtain ⟨hvalue, -⟩ := Prod.mk.inj hrest
      exact Except.ok.inj hvalue
    | none =>
      rw [hfind] at hrest
      dsimp only at hrest
      split at hrest
      · -- a page without a successor ends both the walk and the listing
        rename_i hlast
        rw [if_pos hlast]
        obtain ⟨hvalue, -⟩ := Prod.mk.inj hrest
        exact Except.ok.inj hvalue
      · rename_i hmore
        rw [if_neg hmore]
        exact ih hrest

end Remote

/-- The dialogue does not ask for weighted hosts. -/
abbrev Dialogue.AsksNoHosts {ε α : Type} (d : Dialogue ε α) : Prop :=
  d.Only fun c => c.asksHosts = false

namespace Lifecycle

/-! ## What comes before the weighting is read -/

section

variable {s : RecordSet} {e : Entry} {p : Progress}

theorem hostless_attempt {c : Call} (h : c.asksHosts = false) (purpose : Attempt) :
    (attempt purpose c).AsksNoHosts :=
  only_attempt h purpose

theorem hostless_listed (s : RecordSet) : (listed s).AsksNoHosts :=
  ((only_recordsFrom (fun _ => rfl) _ _).mapError _).bind fun _ => trivial

theorem hostless_ensure (s : RecordSet) (known : List StoredRecord) (e : Entry) :
    (ensure s known e).AsksNoHosts := by
  unfold ensure
  split
  · split
    · exact Dialogue.Only.bind (hostless_attempt rfl _) fun _ => trivial
    · trivial
  · exact Dialogue.Only.bind (hostless_attempt rfl _) fun _ => trivial

theorem hostless_ensureAll (s : RecordSet) (known : List StoredRecord) (entries : List Entry) :
    (ensureAll s known entries).AsksNoHosts := by
  induction entries with
  | nil => trivial
  | cons e rest ih => exact (hostless_ensure s known e).bind fun _ => ih.bind fun _ => trivial

theorem hostless_resourceId (ids : List String) : (resourceId ids).AsksNoHosts := by
  unfold resourceId
  cases ResourceId.new? ids <;> trivial

theorem hostless_touch (deferred : Bool) (id : String) (weight : Option UInt32)
    (remark : Option String) (status : Option Switch) (p : Progress) :
    (touch deferred id weight remark status p).AsksNoHosts := by
  have hrest : ∀ p : Progress, Dialogue.AsksNoHosts
      (dress id remark status >>= fun _ => (pure p : Operation Progress)) := fun p =>
    (Zone.only_dress (fun _ _ => rfl) (fun _ _ => rfl) id remark status).bind fun _ => trivial
  unfold touch weigh
  cases weight with
  | none => exact hrest p
  | some w =>
    refine Dialogue.Only.bind ?_ hrest
    split
    · trivial
    · exact Dialogue.Only.bind (hostless_attempt rfl _) fun _ => trivial

theorem hostless_reconcileCore (s : RecordSet) (e : Entry) (id : String) (core : Bool) :
    (reconcileCore s e id core).AsksNoHosts := by
  refine Dialogue.Only.bind (only_fetch? rfl) fun found => ?_
  cases found with
  | none => exact Dialogue.Only.bind (hostless_attempt rfl _) fun _ => trivial
  | some r =>
    dsimp only
    split
    · exact Dialogue.Only.bind (hostless_attempt rfl _) fun _ => trivial
    · trivial

theorem hostless_runAction (s : RecordSet) (deferred : Bool) (p : Progress) (a : Action) :
    (runAction s deferred p a).AsksNoHosts := by
  cases a with
  | reconcile i id core weight remark status =>
    rw [runAction]
    cases s.entries[i]? with
    | none => trivial
    | some e =>
      dsimp only
      rw [runReconcile_eq]
      refine (hostless_reconcileCore s e id core).bind fun replaced => ?_
      cases replaced <;> exact hostless_touch _ _ _ _ _ _
  | create i =>
    rw [runAction]
    split
    · trivial
    · cases s.entries[i]? with
      | none => trivial
      | some e =>
        dsimp only
        rw [runCreate_eq]
        refine Dialogue.Only.bind ?_ fun known => (hostless_ensure s known e).bind fun found =>
          (hostless_touch _ _ _ _ _ _).bind fun _ => trivial
        cases p.known with
        | none => exact hostless_listed s
        | some known => trivial
  | delete i id =>
    refine Dialogue.Only.bind (Dialogue.Only.bind ⟨rfl, fun _ => trivial⟩ fun answer => ?_) fun _ =>
      trivial
    cases answer with
    | ok _ => trivial
    | error e =>
      dsimp only
      split <;> trivial

theorem hostless_runActions (s : RecordSet) (deferred : Bool) (p : Progress)
    (actions : List Action) : (runActions s deferred p actions).AsksNoHosts := by
  induction actions generalizing p with
  | nil => trivial
  | cons a rest ih => exact (hostless_runAction s deferred p a).bind fun p => ih p

theorem hostless_weighPending (pending : List (String × UInt32)) :
    (weighPending pending).AsksNoHosts := by
  induction pending with
  | nil => trivial
  | cons q rest ih => exact Dialogue.Only.bind (hostless_attempt rfl _) fun _ => ih

theorem hostless_changes (prior : TrackedSet) (desired : RecordSet) :
    (changes prior desired).AsksNoHosts := by
  have hplan : (Lifecycle.plan prior desired).AsksNoHosts := by
    cases h : Lifecycle.plan prior desired with
    | done plan => trivial
    | fail e => trivial
    | ask c next => exact absurd h (plan_ne_ask prior desired c next)
  refine hplan.bind fun plan => ?_
  split
  · trivial
  · exact (hostless_runActions _ _ _ _).bind fun p =>
      (Zone.only_whenSome _ fun _ => hostless_attempt rfl _).bind fun _ =>
        (hostless_weighPending _).bind fun _ => hostless_resourceId _

end

/-! ## Where the weighting comes from -/

/-- The first listed host of the name of a set. -/
def firstHost? (t : TrackedSet) (hosts : List WeightedHost) : Option WeightedHost :=
  hosts.find? fun h => Text.sameLetters h.name (setName t.config)

section

variable {σ : Type} {remote : Remote σ} {α : Type}

/-- The operation returns sets with the weighting of the first host of their name that is listed
when it comes to ask for weighted hosts. -/
def ReadsFirstHost (remote : Remote σ) (d : Operation (Option TrackedSet)) : Prop :=
  ∀ s s' t, d.run remote s = (.ok (some t), s') →
    t.config.weighting =
      (firstHost? t (remote.hosts t.config.domain t.config.host
        (d.stateAt remote Call.asksHosts s))).elim .disabled fun h => .ofBool h.isOpen

theorem ReadsFirstHost.after {d : Operation α} {f : α → Operation (Option TrackedSet)}
    (h : d.AsksNoHosts) (hf : ∀ a, ReadsFirstHost remote (f a)) :
    ReadsFirstHost remote (d >>= f) := by
  intro s s' t hrun
  obtain ⟨a, s₁, hd, hrest⟩ := Dialogue.exists_run_of_bind hrun
  rw [Dialogue.stateAt_bind h hd]
  exact hf a s₁ s' t hrest

theorem run_readWeighting {domain host : String} {position : Switch} {s s' : σ}
    (hrun : (readWeighting domain host).run remote s = (.ok position, s')) :
    position = ((remote.hosts domain host s).find? fun h =>
      Text.sameLetters h.name (fullName host domain)).elim .disabled fun h => .ofBool h.isOpen := by
  unfold readWeighting at hrun
  obtain ⟨found, s₁, hfound, hposition⟩ := Dialogue.exists_run_of_bind hrun
  rw [Dialogue.run_mapError] at hfound
  rcases hwalk : (Remote.weightedHost? domain host (fullName host domain)).run remote s with
    ⟨_ | found', s₂⟩
  · rw [hwalk] at hfound
    cases hfound
  · rw [hwalk] at hfound
    obtain ⟨hsame, -⟩ := Prod.mk.inj hfound
    obtain rfl : found' = found := Except.ok.inj hsame
    obtain ⟨hvalue, -⟩ := Prod.mk.inj hposition
    rw [Remote.hosts, Remote.find?_hostsFrom hwalk]
    exact (Except.ok.inj hvalue).symm

/-- Reading the weighting starts by asking for weighted hosts. -/
theorem stateAt_readWeighting (domain host : String) (f : Switch → Operation α) (s : σ) :
    (readWeighting domain host >>= f).stateAt remote Call.asksHosts s = s := by
  rfl

theorem readsFirstHost_assemble (domain : String) (records : List StoredRecord) :
    ReadsFirstHost remote (assemble domain records >>= fun t => pure (some t)) := by
  cases records with
  | nil =>
    intro s s' t hrun
    cases hrun
  | cons first rest =>
    have hcomplete :
        (completeWeights domain first.host first.type (first :: rest)).AsksNoHosts := by
      unfold completeWeights
      split
      · exact ((only_recordsFrom (fun _ => rfl) _ _).mapError _).bind fun _ => trivial
      · trivial
    unfold assemble
    rw [Dialogue.bind_assoc]
    refine .after hcomplete fun complete => ?_
    intro s s' t hrun
    rw [Dialogue.bind_assoc] at hrun ⊢
    rw [stateAt_readWeighting]
    obtain ⟨weighting, s₁, hweighting, hrest⟩ := Dialogue.exists_run_of_bind hrun
    rw [Dialogue.bind_assoc] at hrest
    obtain ⟨id, s₂, -, hvalue⟩ := Dialogue.exists_run_of_bind hrest
    obtain ⟨hset, -⟩ := Prod.mk.inj hvalue
    obtain rfl := Option.some.inj (Except.ok.inj hset)
    exact run_readWeighting hweighting

theorem readsFirstHost_read? (id : ResourceId) (domain : String) :
    ReadsFirstHost remote (read? id domain) := by
  refine .after (only_fetchAll fun _ _ => rfl) fun records => ?_
  split
  · intro s s' t hrun
    cases hrun
  · exact readsFirstHost_assemble domain records

theorem readsFirstHost_readBack (id : ResourceId) (c : RecordSet) :
    ReadsFirstHost remote (readBack id c >>= fun t => pure (some t)) := by
  intro s s' t hrun
  unfold readBack at hrun ⊢
  split at hrun
  · cases hrun
  rename_i hsize
  rw [if_neg hsize]
  rw [Dialogue.bind_assoc] at hrun ⊢
  obtain ⟨found, s₁, hread, hrest⟩ := Dialogue.exists_run_of_bind hrun
  cases found with
  | none => cases hrest
  | some found =>
    obtain ⟨hset, -⟩ := Prod.mk.inj hrest
    obtain rfl := Option.some.inj (Except.ok.inj hset)
    rw [Dialogue.stateAt_bind_of_still]
    · exact readsFirstHost_read? id c.domain s s₁ found hread
    · intro found s
      cases found <;> rfl

theorem readsFirstHost_create (preflight : Bool) (c : RecordSet) :
    ReadsFirstHost remote (create preflight c >>= fun t => pure (some t)) := by
  cases hfault : c.fault? with
  | some fault =>
    intro s s' t hrun
    unfold create accept at hrun
    rw [hfault] at hrun
    cases hrun
  | none =>
    rw [create_eq hfault]
    unfold finish
    simp only [Dialogue.bind_assoc]
    refine .after (only_lookUp fun _ => rfl) fun _ => .after (hostless_listed c) fun known =>
      .after (hostless_ensureAll c known c.entries) fun records => ?_
    refine .after (Zone.only_weighGroup (fun _ => rfl) (fun _ _ => rfl) c _) fun _ =>
      .after (Zone.only_applyAllExtras (fun _ _ => rfl) (fun _ _ => rfl) _) fun _ =>
        .after (hostless_resourceId _) fun id => ?_
    exact readsFirstHost_readBack id c

theorem readsFirstHost_update (prior : TrackedSet) (desired : RecordSet) :
    ReadsFirstHost remote (update prior desired >>= fun t => pure (some t)) := by
  rw [update_eq_changes, Dialogue.bind_assoc]
  exact .after (hostless_changes prior desired) fun id => readsFirstHost_readBack id desired

theorem readsFirstHost_takeOver (text : String) :
    ReadsFirstHost remote (takeOver text >>= fun t => pure (some t)) := by
  unfold takeOver
  cases ImportId.parse? text with
  | none =>
    intro s s' t hrun
    cases hrun
  | some id =>
    dsimp only
    rw [Dialogue.bind_assoc]
    refine .after (hostless_attempt rfl _) fun record => ?_
    split
    · intro s s' t hrun
      cases hrun
    · exact readsFirstHost_assemble id.domain [record]

end

/-- The operations that return a set. -/
inductive ReturnsSet : Operation (Option TrackedSet) → Prop where
  | read (id : ResourceId) (domain : String) : ReturnsSet (read? id domain)
  | create (preflight : Bool) (s : RecordSet) :
      ReturnsSet (create preflight s >>= fun t => pure (some t))
  | update (prior : TrackedSet) (desired : RecordSet) :
      ReturnsSet (update prior desired >>= fun t => pure (some t))
  | takeOver (text : String) : ReturnsSet (takeOver text >>= fun t => pure (some t))

theorem ReturnsSet.readsFirstHost {σ : Type} (remote : Remote σ)
    {d : Operation (Option TrackedSet)} (h : ReturnsSet d) : ReadsFirstHost remote d := by
  cases h with
  | read id domain => exact readsFirstHost_read? id domain
  | create preflight s => exact readsFirstHost_create preflight s
  | update prior desired => exact readsFirstHost_update prior desired
  | takeOver text => exact readsFirstHost_takeOver text

end Lifecycle

/-- Whether a listed host is the group of a set: has its name, type and line. -/
def WeightedHost.isGroupOf (s : RecordSet) (h : WeightedHost) : Bool :=
  Text.sameLetters h.name (setName s) && h.type == some s.type.name && h.line == some s.line

namespace Wire

variable {τ : Type} {t : TrackedSet} {d : Operation (Option TrackedSet)} {s s' : τ}

/-- A set is returned with the weighting of the first listed host of its name, off if there is
none. If a single listed host is the group of the set, this is the weighting of the group exactly
if the first host of the name, which may have another type or line, is switched as the group is. -/
theorem weighting_of_first_host (client : Client) (transport : Transport τ) (hd : ReturnsSet d)
    (hrun : d.run (client.remote transport) s = (.ok (some t), s')) :
    let hosts := (client.remote transport).hosts t.config.domain t.config.host
      (d.stateAt (client.remote transport) Call.asksHosts s)
    t.config.weighting = (firstHost? t hosts).elim .disabled (fun h => .ofBool h.isOpen) ∧
    ∀ own, hosts.filter (·.isGroupOf t.config) = [own] →
      (t.config.weighting = .ofBool own.isOpen ↔
        ∀ first, firstHost? t hosts = some first → first.isOpen = own.isOpen) := by
  intro hosts
  have hweighting : t.config.weighting =
      (firstHost? t hosts).elim .disabled fun h => .ofBool h.isOpen :=
    hd.readsFirstHost (client.remote transport) s s' t hrun
  refine ⟨hweighting, ?_⟩
  intro own hown
  have hmem : own ∈ hosts.filter (·.isGroupOf t.config) := by
    rw [hown]
    exact List.mem_singleton_self own
  obtain ⟨hlisted, hgroup⟩ := List.mem_filter.mp hmem
  have hname : Text.sameLetters own.name (setName t.config) = true := by
    simp only [WeightedHost.isGroupOf, Bool.and_eq_true] at hgroup
    exact hgroup.1.1
  have hsome : (firstHost? t hosts).isSome := List.find?_isSome.mpr ⟨own, hlisted, hname⟩
  obtain ⟨first, hfirst⟩ := Option.isSome_iff_exists.mp hsome
  rw [hweighting, hfirst, Option.elim_some]
  constructor
  · intro hsame first' hfirst'
    obtain rfl := Option.some.inj hfirst'
    have hpositions := congrArg Switch.isOn hsame
    rwa [Switch.isOn_ofBool, Switch.isOn_ofBool] at hpositions
  · intro hopen
    rw [hopen first rfl]

/-- A host of a type as the service lists it. -/
def hostText (type isOpen : String) : String :=
  "\x7b\"SubDomain\":\"www.example.com\",\"Type\":\"" ++ type ++
    "\",\"Line\":\"default\",\"Open\":" ++ isOpen ++ "\x7d"

/-- A service with one record of type A, and with two listed hosts of its name. -/
def twoHosts (first second : String) : Script := .start [
  ("DescribeDomainRecordInfo", [.replied ⟨200, none, .ok (recordText "1")⟩]),
  ("DescribeDNSSLBSubDomains", [.replied ⟨200, none, .ok
    ("\x7b\"SlbSubDomains\":\x7b\"SlbSubDomain\":[" ++ first ++ "," ++ second ++
      "]\x7d\x7d")⟩])]

/-- Reading the record. -/
def readSingle : Operation (Option TrackedSet) := read? ⟨["1"]⟩ "example.com"

/-- The set of the record. -/
def singleSet (weighting : Switch) : TrackedSet :=
  ⟨⟨["1"]⟩, ⟨"example.com", "www", .a, "default", none, weighting,
    [⟨"192.0.2.1", 600, 1, .enabled, none⟩]⟩⟩

/-- The listed host that is the group of the record. -/
def ownHost : WeightedHost := ⟨"www.example.com", 0, true, some "A", some "default"⟩

/-- A listed host of the same name that is another group. -/
def otherHost : WeightedHost := ⟨"www.example.com", 0, false, some "AAAA", some "default"⟩

/-- A service that lists the group of the record before the other one. -/
def ownFirst : Script := twoHosts (hostText "A" "true") (hostText "AAAA" "false")

/-- A service that lists the group of the record behind the other one. -/
def ownLast : Script := twoHosts (hostText "AAAA" "false") (hostText "A" "true")

set_option maxRecDepth 10000 in
theorem read_ownFirst :
    (readSingle.run (keyClient.remote Script.transport) ownFirst).1 =
      .ok (some (singleSet .enabled)) ∧
    (keyClient.remote Script.transport).hosts (singleSet .enabled).config.domain
      (singleSet .enabled).config.host
      (readSingle.stateAt (keyClient.remote Script.transport) Call.asksHosts ownFirst) =
        [ownHost, otherHost] := by
  decide +kernel

/-- Where the group of the set is listed before the other one, its weighting is read. -/
theorem own_host_first_read :
    ∃ s', readSingle.run (keyClient.remote Script.transport) ownFirst =
        (.ok (some (singleSet .enabled)), s') ∧
      (singleSet .enabled).config.weighting = .ofBool ownHost.isOpen := by
  obtain ⟨hresult, hhosts⟩ := read_ownFirst
  have hrun := Dialogue.run_eq_ok hresult
  have hread : ReturnsSet readSingle := .read _ _
  obtain ⟨-, hiff⟩ := weighting_of_first_host keyClient Script.transport hread hrun
  refine ⟨_, hrun, (hiff ownHost ?_).mpr ?_⟩
  · rw [hhosts]
    decide
  · intro first hfirst
    rw [hhosts] at hfirst
    obtain rfl : ownHost = first := Option.some.inj hfirst
    rfl

set_option maxRecDepth 10000 in
theorem read_ownLast :
    (readSingle.run (keyClient.remote Script.transport) ownLast).1 =
      .ok (some (singleSet .disabled)) ∧
    (keyClient.remote Script.transport).hosts (singleSet .disabled).config.domain
      (singleSet .disabled).config.host
      (readSingle.stateAt (keyClient.remote Script.transport) Call.asksHosts ownLast) =
        [otherHost, ownHost] := by
  decide +kernel

/-- A host of another type that is listed before the group of a set hides how that is switched. -/
theorem own_host_not_always_read :
    ¬ ∀ (client : Client) (transport : Transport Script) (d : Operation (Option TrackedSet))
        (s s' : Script) (t : TrackedSet) (own : WeightedHost), ReturnsSet d →
      d.run (client.remote transport) s = (.ok (some t), s') →
      ((client.remote transport).hosts t.config.domain t.config.host
        (d.stateAt (client.remote transport) Call.asksHosts s)).filter
          (·.isGroupOf t.config) = [own] →
      t.config.weighting = .ofBool own.isOpen := by
  intro h
  obtain ⟨hresult, hhosts⟩ := read_ownLast
  have hsame := h keyClient Script.transport readSingle ownLast _ (singleSet .disabled) ownHost
    (.read _ _) (Dialogue.run_eq_ok hresult) (by rw [hhosts]; decide)
  cases hsame

end Wire

end WeightedDns
