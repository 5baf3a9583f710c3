import WeightedDns.CommandLine.Run
import WeightedDns.Proofs.Update.Preview
import WeightedDns.Proofs.Wire.Retry
import WeightedDns.Wire.Script

/-!
# What never writes

Reading, taking over and planning never write, nor do the commands for them, whatever the service
answers (`reading_never_writes`). Neither does an update without anything to do; and what is
refused before it begins makes no call at all. Over the wire a command that only reads sends
requests of four actions and no others.
-/

namespace WeightedDns

open Lifecycle CommandLine

namespace Dialogue

variable {ε α : Type}

/-- Whatever is answered, no call writes. -/
def NeverWrites (d : Dialogue ε α) : Prop :=
  ∀ log result, d.Transcript log result → ∀ x ∈ log, x.call.writes = false

/-- No call is made. -/
def MakesNoCall (d : Dialogue ε α) : Prop := ∀ log result, d.Transcript log result → log = []

variable {d : Dialogue ε α}

/-- What holds of every call of a dialogue holds of the calls of a transcript. -/
theorem Only.of_mem {p : Call → Prop} (h : d.Only p) {log : List Exchange} {result : Except ε α}
    (htranscript : d.Transcript log result) : ∀ x ∈ log, p x.call := by
  induction htranscript with
  | done a => exact fun x hx => nomatch hx
  | fail e => exact fun x hx => nomatch hx
  | ask rest ih =>
    rw [List.forall_mem_cons]
    exact ⟨h.1, ih (h.2 _)⟩

theorem Only.neverWrites (h : d.Reads) : d.NeverWrites := fun _ _ htranscript =>
  h.of_mem htranscript

theorem Only.makesNoCall (h : d.Only fun _ => False) : d.MakesNoCall := fun _ _ htranscript =>
  List.eq_nil_iff_forall_not_mem.mpr (h.of_mem htranscript)

theorem only_ofExcept {p : Call → Prop} (r : Except ε α) : (ofExcept r).Only p := by
  cases r <;> trivial

end Dialogue

/-! ## Operations -/

namespace Lifecycle

theorem reads_read? (id : ResourceId) (domain : String) : (read? id domain).Reads :=
  (looks_read? id domain).reads

theorem reads_takeOver (text : String) : (takeOver text).Reads := by
  unfold takeOver
  cases ImportId.parse? text with
  | none => trivial
  | some id =>
    refine (only_attempt (p := fun c => c.writes = false) rfl _).bind fun record => ?_
    split
    · trivial
    · exact (looks_assemble _ _).reads

theorem only_plan {p : Call → Prop} (prior : TrackedSet) (desired : RecordSet) :
    (plan prior desired).Only p := by
  unfold plan accept
  cases desired.fault? with
  | some fault => trivial
  | none => exact Dialogue.only_ofExcept _

section

variable {prior : TrackedSet} {desired : RecordSet}

/-- A set that is refused is not created, and nothing is asked. -/
theorem create_of_fault {preflight : Bool} {fault : RecordSet.Fault}
    (h : desired.fault? = some fault) :
    create preflight desired = .fail (.refused (.fault fault)) := by
  unfold create accept
  rw [h]
  rfl

/-- An update that is refused or cannot be planned ends before any call. -/
theorem exists_update_eq_fail
    (h : desired.fault? ≠ none ∨ ∃ e, Plan.between prior desired = .error e) :
    ∃ e, update prior desired = .fail e := by
  unfold update plan accept
  cases hfault : desired.fault? with
  | some fault => exact ⟨_, rfl⟩
  | none =>
    obtain ⟨e, he⟩ := h.resolve_left fun h => h hfault
    rw [he]
    exact ⟨_, rfl⟩

/-- An update without anything to do only reads the set back. -/
theorem reads_update {p : Plan} (h : Plan.between prior desired = .ok p)
    (hempty : p.isEmpty = true) : (update prior desired).Reads := by
  unfold update plan accept
  rw [h]
  cases desired.fault? with
  | some fault => trivial
  | none =>
    change Dialogue.Reads (if p.isEmpty then _ else _)
    rw [if_pos hempty]
    exact (looks_readBack prior.id desired).reads

end

end Lifecycle

/-! ## Commands -/

namespace CommandLine

/-- Whether a command has no other task than to read. -/
def Command.onlyReads : Command → Bool
  | .read _ _ | .takeOver _ | .plan _ _ | .validate _ => true
  | .create _ | .update _ _ | .delete _ => false

theorem reads_priorState (files : Files) (prior : Prior) (domain : String) :
    (priorState files prior domain).Reads := by
  cases prior with
  | state path => exact Dialogue.only_ofExcept _
  | id text =>
    refine (Dialogue.only_ofExcept (resourceId text)).bind fun id => ?_
    refine ((reads_read? id domain).mapError _).bind fun found => ?_
    cases found <;> trivial

/-- A command that only reads does so at every step. -/
theorem reads_run (files : Files) {command : Command} (h : command.onlyReads = true) :
    (command.run files).Reads := by
  cases command with
  | validate config => exact Dialogue.only_ofExcept _
  | read config id =>
    refine (Dialogue.only_ofExcept (files.recordSet config)).bind fun s => ?_
    refine (Dialogue.only_ofExcept (resourceId id)).bind fun id => ?_
    exact ((reads_read? id s.domain).mapError _).bind fun _ => trivial
  | takeOver importId => exact ((reads_takeOver importId).mapError _).bind fun _ => trivial
  | plan config prior =>
    refine (Dialogue.only_ofExcept (files.recordSet config)).bind fun s => ?_
    refine (reads_priorState files prior s.domain).bind fun prior => ?_
    exact ((only_plan prior s).mapError _).bind fun _ => trivial
  | create config => cases h
  | update config prior => cases h
  | delete id => cases h

end CommandLine

/-! ## Over the wire -/

namespace Wire

/-- The actions that change nothing. -/
def readingActions : List String :=
  ["DescribeDomainInfo", "DescribeDomainRecords", "DescribeDomainRecordInfo",
    "DescribeDNSSLBSubDomains"]

theorem actionName_mem_readingActions_iff (c : Call) :
    c.actionName ∈ readingActions ↔ c.writes = false := by
  cases c <;> simp [Call.actionName, readingActions, Call.writes]

variable {τ : Type} {client : Client} {transport : Transport τ} {w w' w'' : Watched τ}

/-- Since a state of the transport only requests of certain calls have been sent. -/
def SentOnly (client : Client) (p : Call → Prop) (w w' : Watched τ) : Prop :=
  ∃ sent, w'.sent = w.sent ++ sent ∧
    ∀ x ∈ sent, ∃ c stamp, p c ∧ x.request = client.request c stamp

theorem SentOnly.refl (p : Call → Prop) (w : Watched τ) : SentOnly client p w w :=
  ⟨[], (List.append_nil _).symm, fun _ h => nomatch h⟩

theorem SentOnly.trans {p : Call → Prop} (h : SentOnly client p w w')
    (h' : SentOnly client p w' w'') : SentOnly client p w w'' := by
  obtain ⟨sent, hsent, honly⟩ := h
  obtain ⟨sent', hsent', honly'⟩ := h'
  refine ⟨sent ++ sent', by rw [hsent', hsent, List.append_assoc], ?_⟩
  rw [List.forall_mem_append]
  exact ⟨honly, honly'⟩

theorem sentOnly_sendOnce {p : Call → Prop} {c : Call} (h : p c) (w : Watched τ) :
    SentOnly client p w (client.sendOnce transport.watched c w).2 := by
  refine ⟨[⟨client.request c (transport.stamp w.state), w.clock⟩], rfl, ?_⟩
  rw [List.forall_mem_singleton]
  exact ⟨c, transport.stamp w.state, h, rfl⟩

theorem sentOnly_attempts {p : Call → Prop} {c : Call} (h : p c) (retries attempt : Nat)
    (w : Watched τ) :
    SentOnly client p w (client.attempts transport.watched c retries attempt w).2 := by
  have hsend : SentOnly client p w (client.sendOnce transport.watched c w).2 :=
    sentOnly_sendOnce h w
  induction retries generalizing attempt w with
  | zero => exact hsend
  | succ retries ih =>
    rw [Client.attempts]
    rcases hattempt : client.sendOnce transport.watched c w with ⟨_ | value, w₁⟩
    · rw [hattempt] at hsend
      dsimp only
      split
      · exact hsend.trans (ih _ _ (sentOnly_sendOnce h _))
      · exact hsend
    · rw [hattempt] at hsend
      exact hsend

/-- Over the wire a dialogue sends only requests of its own calls. -/
theorem sentOnly_run {ε α : Type} {p : Call → Prop} {d : Dialogue ε α} (h : d.Only p)
    (w : Watched τ) : SentOnly client p w (d.run (client.remote transport.watched) w).2 := by
  induction d generalizing w with
  | done a => exact .refl p w
  | fail e => exact .refl p w
  | ask c next ih => exact (sentOnly_attempts h.1 _ _ w).trans (ih _ (h.2 _) _)

/-- A command that only reads sends only requests that change nothing. -/
theorem exists_sent_execute {i : Invocation} (files : Files) (transport : Transport τ)
    (w : Watched τ) (h : i.command.onlyReads = true) :
    ∃ sent, (i.execute files transport.watched w).2.sent = w.sent ++ sent ∧
      ∀ x ∈ sent, x.request.action ∈ readingActions := by
  have hstill : ∃ sent, w.sent = w.sent ++ sent ∧ ∀ x ∈ sent, x.request.action ∈ readingActions :=
    ⟨[], (List.append_nil _).symm, fun _ h => nomatch h⟩
  unfold Invocation.execute
  split
  · exact hstill
  · split
    · exact hstill
    · obtain ⟨sent, hsent, honly⟩ := sentOnly_run (reads_run files h) w
      refine ⟨sent, hsent, fun x hx => ?_⟩
      obtain ⟨c, stamp, hreads, hrequest⟩ := honly x hx
      rw [hrequest]
      exact (actionName_mem_readingActions_iff c).mpr hreads

end Wire

/-! ## What never writes -/

/-- Reading, taking over and planning never write, nor do the commands for them; over the wire
such a command sends requests of reading actions only. An update without anything to do never
writes. A set that is refused is neither created nor compared with what exists, and an update that
cannot be planned makes no call. -/
theorem reading_never_writes :
    (∀ id domain, (read? id domain).NeverWrites) ∧
    (∀ text, (takeOver text).NeverWrites) ∧
    (∀ prior desired, (plan prior desired).MakesNoCall) ∧
    (∀ (files : Files) (command : Command), command.onlyReads = true →
      (command.run files).NeverWrites) ∧
    (∀ (τ : Type) (i : Invocation) (files : Files) (transport : Wire.Transport τ)
      (w : Wire.Watched τ), i.command.onlyReads = true →
      ∃ sent, (i.execute files transport.watched w).2.sent = w.sent ++ sent ∧
        ∀ x ∈ sent, x.request.action ∈ Wire.readingActions) ∧
    (∀ prior desired p, Plan.between prior desired = .ok p → p.isEmpty = true →
      (update prior desired).NeverWrites) ∧
    (∀ preflight s, s.fault? ≠ none → (create preflight s).MakesNoCall) ∧
    ∀ prior desired, (desired.fault? ≠ none ∨ ∃ e, Plan.between prior desired = .error e) →
      (update prior desired).MakesNoCall := by
  refine ⟨fun id domain => (reads_read? id domain).neverWrites,
    fun text => (reads_takeOver text).neverWrites,
    fun prior desired => (only_plan prior desired).makesNoCall,
    fun files command h => (reads_run files h).neverWrites,
    fun τ i files transport w h => Wire.exists_sent_execute files transport w h,
    fun prior desired p h hempty => (reads_update h hempty).neverWrites, ?_, ?_⟩
  · intro preflight s hfault
    obtain ⟨fault, hfault⟩ := Option.ne_none_iff_exists'.mp hfault
    rw [create_of_fault hfault]
    exact Dialogue.Only.makesNoCall trivial
  · intro prior desired h
    obtain ⟨e, hfail⟩ := exists_update_eq_fail h
    rw [hfail]
    exact Dialogue.Only.makesNoCall trivial

/-- A set of one record that is tracked. -/
def singleSet : TrackedSet :=
  ⟨⟨["1"]⟩, ⟨"example.com", "www", .a, "default", none, .disabled,
    [⟨"192.0.2.1", 600, 1, .enabled, none⟩]⟩⟩

/-- The set without its record, which is refused. -/
def emptiedSet : RecordSet := { singleSet.config with entries := [] }

/-- The command to plan an update of the set, with an access key. -/
def planning : Invocation :=
  ⟨⟨some "key", some "secret", none, none, defaultLogLevel⟩, .plan "www.toml" (.id "1")⟩

/-- A set is kept as it is and never written; without its record it is refused before any call. To
plan for it sends nothing that writes. -/
theorem kept_never_written :
    Plan.between singleSet singleSet.config = .ok ⟨[], none⟩ ∧
    (update singleSet singleSet.config).NeverWrites ∧
    emptiedSet.fault? ≠ none ∧ (create true emptiedSet).MakesNoCall ∧
    (update singleSet emptiedSet).MakesNoCall ∧
    planning.command.onlyReads = true ∧
    (planning.command.run fun _ => .error .notFound).NeverWrites ∧
    ∃ sent, (planning.execute (fun _ => .error .notFound) Wire.Script.transport.watched
        ⟨.start [], 0, []⟩).2.sent = [] ++ sent ∧
      ∀ x ∈ sent, x.request.action ∈ Wire.readingActions := by
  obtain ⟨-, -, -, hrun, hexecute, hidle, hcreate, hupdate⟩ := reading_never_writes
  have hplan : Plan.between singleSet singleSet.config = .ok ⟨[], none⟩ := by decide
  have hfault : emptiedSet.fault? ≠ none := by decide
  exact ⟨hplan, hidle _ _ _ hplan rfl, hfault, hcreate true _ hfault,
    hupdate singleSet _ (.inl hfault), rfl, hrun _ _ rfl, hexecute _ planning _ _ _ rfl⟩

end WeightedDns
