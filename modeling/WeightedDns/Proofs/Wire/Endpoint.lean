import WeightedDns.Proofs.Text.Trimming
import WeightedDns.Text.Letters
import WeightedDns.Wire.Client

/-!
# Endpoints and the hosts of addresses

`Spells` lists the texts that stand for an endpoint: a scheme, `://` and an authority, or an
authority alone, with a path behind and blanks around. Such a text is read as the endpoint that it
stands for, and so is the endpoint's own form. Whatever text a client is given, the host that it
signs is the authority of the address that it asks (`endpoint_exact`).
-/

namespace WeightedDns.Wire

namespace Endpoint

/-! ## Marks -/

variable {mark cs before behind : List Char}

theorem splitAtMark?_eq_some (hmark : mark ≠ [])
    (h : splitAtMark? mark cs = some (before, behind)) :
    cs = before ++ mark ++ behind ∧ ¬ mark <:+: before := by
  induction cs generalizing before with
  | nil =>
    rw [splitAtMark?, if_neg (by simpa using hmark)] at h
    cases h
  | cons c cs ih =>
    rw [splitAtMark?] at h
    split at h
    · rename_i hfirst
      obtain ⟨rest, hrest⟩ := List.isPrefixOf_iff_prefix.mp hfirst
      rw [← hrest, List.drop_left] at h
      cases h
      refine ⟨hrest.symm, ?_⟩
      rw [List.infix_nil]
      exact hmark
    · rename_i hlater
      obtain ⟨⟨before', behind'⟩, hsplit, hparts⟩ := Option.map_eq_some_iff.mp h
      cases hparts
      obtain ⟨rfl, hno⟩ := ih hsplit
      refine ⟨rfl, ?_⟩
      rw [List.infix_cons_iff]
      rintro (hstart | hwithin)
      · rw [List.isPrefixOf_iff_prefix, List.append_assoc] at hlater
        exact hlater (hstart.trans (List.prefix_append (c :: before') _))
      · exact hno hwithin

theorem splitAtMark?_eq_none (h : ¬ mark <:+: cs) : splitAtMark? mark cs = none := by
  cases hsplit : splitAtMark? mark cs with
  | none => rfl
  | some parts =>
    obtain ⟨before, behind⟩ := parts
    have hmark : mark ≠ [] := by
      rintro rfl
      exact h List.nil_infix
    obtain ⟨hcs, -⟩ := splitAtMark?_eq_some hmark hsplit
    exact absurd ⟨before, behind, hcs.symm⟩ h

/-- What stands between a scheme and an authority. -/
def schemeMark : List Char := [':', '/', '/']

/-- The mark does not overlap itself: in front of a mark none begins in a text that has none. -/
theorem not_schemeMark_prefix {c : Char} (h : ¬ schemeMark <:+: c :: cs) (behind : List Char) :
    ¬ schemeMark <+: c :: cs ++ schemeMark ++ behind := by
  intro hstart
  match cs with
  | [] => simp [schemeMark] at hstart
  | [d] => simp [schemeMark] at hstart
  | d :: e :: cs =>
    have hwithin : schemeMark <+: c :: d :: e :: cs := by
      simpa [schemeMark] using hstart
    exact h hwithin.isInfix

theorem splitAtMark?_append_schemeMark (h : ¬ schemeMark <:+: before) :
    splitAtMark? schemeMark (before ++ schemeMark ++ behind) = some (before, behind) := by
  induction before with
  | nil => rfl
  | cons c before ih =>
    have hno : ¬ schemeMark <:+: before :=
      fun hwithin => h (hwithin.trans (List.suffix_cons _ _).isInfix)
    have hlater := not_schemeMark_prefix h behind
    rw [← List.isPrefixOf_iff_prefix] at hlater
    rw [List.cons_append, List.cons_append] at hlater ⊢
    rw [splitAtMark?, if_neg hlater, ih hno]
    rfl

/-- The mark first stands behind the one beginning that does not have it. -/
theorem splitAtMark?_eq_some_iff :
    splitAtMark? schemeMark cs = some (before, behind) ↔
      cs = before ++ schemeMark ++ behind ∧ ¬ schemeMark <:+: before := by
  constructor
  · exact splitAtMark?_eq_some (List.cons_ne_nil _ _)
  · rintro ⟨rfl, hno⟩
    exact splitAtMark?_append_schemeMark hno

/-! ## Ends -/

variable {p : Char → Bool} {front tail : List Char}

theorem takeWhile_append_eq (hfront : ∀ c ∈ front, p c = true)
    (htail : ∀ c ∈ tail.head?, p c = false) : (front ++ tail).takeWhile p = front := by
  rw [List.takeWhile_append_of_pos hfront]
  cases tail with
  | nil => simp
  | cons c tail => simp [htail c rfl]

/-- Blanks around and slashes behind are taken off, and nothing of what begins and ends with
neither. -/
theorem exists_kept (path : List Char) (hbefore : ∀ c ∈ before, Text.isBlankChar c = true)
    (hbehind : ∀ c ∈ behind, Text.isBlankChar c = true) (hfront : front ≠ [])
    (hbegins : ∀ c ∈ front.head?, Text.isBlankChar c = false)
    (hends : ∀ c ∈ front.getLast?, Text.isBlankChar c = false ∧ c ≠ '/') :
    ∃ kept, kept <+: path ∧
      dropSlashes (Text.trimChars (before ++ (front ++ (path ++ behind)))) = front ++ kept := by
  refine ⟨(path.rdropWhile Text.isBlankChar).rdropWhile (· == '/'),
    (List.rdropWhile_prefix _ _).trans (List.rdropWhile_prefix _ _), ?_⟩
  have hhead : ∀ c ∈ (front ++ (path ++ behind)).head?, Text.isBlankChar c = false := by
    rw [List.head?_append_of_ne_nil _ hfront]
    exact hbegins
  have htrim : Text.trimChars (before ++ (front ++ (path ++ behind))) =
      front ++ path.rdropWhile Text.isBlankChar := by
    change ((before ++ _).dropWhile Text.isBlankChar).rdropWhile Text.isBlankChar = _
    rw [List.dropWhile_append_of_pos hbefore, Text.dropWhile_eq_self hhead,
      Text.rdropWhile_append fun c hc => (hends c hc).1, Text.rdropWhile_append_of_pos hbehind]
  rw [htrim]
  exact Text.rdropWhile_append fun c hc => beq_eq_false_iff_ne.mpr (hends c hc).2

/-! ## Spelling -/

/-- A scheme has no blank and no mark in it. -/
structure IsScheme (s : String) : Prop where
  no_blank : s.toList.any Text.isBlankChar = false
  no_mark : ¬ "://".toList <:+: s.toList

/-- An authority has a character, and none of them is a slash or a blank. -/
structure IsAuthority (s : String) : Prop where
  ne_nil : s.toList ≠ []
  no_slash : '/' ∉ s.toList
  no_blank : s.toList.any Text.isBlankChar = false

/-- A path is empty or begins with a slash. -/
def IsPath (s : String) : Prop := ∀ c ∈ s.toList.head?, c = '/'

/-- The texts that stand for an endpoint. -/
inductive Spells : String → Endpoint → Prop where
  | full (before scheme authority path behind : String) (hbefore : Text.isBlank before = true)
      (hscheme : IsScheme scheme) (hauthority : IsAuthority authority) (hpath : IsPath path)
      (hbehind : Text.isBlank behind = true) :
      Spells (before ++ scheme ++ "://" ++ authority ++ path ++ behind)
        ⟨scheme ++ "://" ++ authority, authority⟩
  | bare (before authority path behind : String) (hbefore : Text.isBlank before = true)
      (hauthority : IsAuthority authority) (hpath : IsPath path)
      (hmark : ¬ "://".toList <:+: (authority ++ path).toList)
      (hbehind : Text.isBlank behind = true) :
      Spells (before ++ authority ++ path ++ behind) ⟨"https://" ++ authority, authority⟩

theorem isBlankChar_eq_false {s : String} (h : s.toList.any Text.isBlankChar = false) :
    ∀ c ∈ s.toList, Text.isBlankChar c = false := by
  simpa using h

theorem IsAuthority.getLast? {s : String} (h : IsAuthority s) :
    ∀ c ∈ s.toList.getLast?, Text.isBlankChar c = false ∧ c ≠ '/' := by
  intro c hc
  have hmem := List.mem_of_getLast? hc
  exact ⟨isBlankChar_eq_false h.no_blank c hmem, fun heq => h.no_slash (heq ▸ hmem)⟩

theorem IsAuthority.takeWhile {s : String} (h : IsAuthority s) {path : String} {kept : List Char}
    (hpath : IsPath path) (hkept : kept <+: path.toList) :
    (s.toList ++ kept).takeWhile (· != '/') = s.toList := by
  refine takeWhile_append_eq (fun c hc => ?_) fun c hc => ?_
  · rw [bne_iff_ne]
    rintro rfl
    exact h.no_slash hc
  · obtain ⟨rest, hrest⟩ := hkept
    have hhead : c ∈ path.toList.head? := by
      rw [← hrest, List.head?_append, hc]
      rfl
    rw [hpath c hhead]
    rfl

theorem IsScheme.head? {s : String} (h : IsScheme s) (rest : List Char) :
    ∀ c ∈ (s.toList ++ schemeMark ++ rest).head?, Text.isBlankChar c = false := by
  intro c hc
  cases hs : s.toList with
  | nil =>
    rw [hs] at hc
    obtain rfl : ':' = c := Option.mem_some.mp hc
    decide
  | cons d ds =>
    rw [hs] at hc
    obtain rfl : d = c := Option.mem_some.mp hc
    exact isBlankChar_eq_false h.no_blank d (by rw [hs]; exact List.mem_cons_self)

/-- The scheme and what stands behind it in a text. -/
def parts (text : String) : List Char × List Char :=
  (splitAtMark? schemeMark (dropSlashes (Text.trimChars text.toList))).getD
    ("https".toList, dropSlashes (Text.trimChars text.toList))

theorem ofText_eq (text : String) :
    ofText text =
      ⟨String.ofList (parts text).1 ++ "://" ++
          String.ofList ((parts text).2.takeWhile (· != '/')),
        String.ofList ((parts text).2.takeWhile (· != '/'))⟩ := rfl

/-- Of a path that is kept in part nothing gets into the endpoint. -/
theorem ofText_of_parts {text scheme authority path : String} {kept : List Char}
    (hauthority : IsAuthority authority) (hpath : IsPath path) (hkept : kept <+: path.toList)
    (hparts : parts text = (scheme.toList, authority.toList ++ kept)) :
    ofText text = ⟨scheme ++ "://" ++ authority, authority⟩ := by
  rw [ofText_eq, hparts, hauthority.takeWhile hpath hkept, String.ofList_toList,
    String.ofList_toList]

theorem ofText_of_spells {text : String} {e : Endpoint} (h : Spells text e) : ofText text = e := by
  cases h with
  | full before scheme authority path behind hbefore hscheme hauthority hpath hbehind =>
    have hends : ∀ c ∈ (scheme.toList ++ schemeMark ++ authority.toList).getLast?,
        Text.isBlankChar c = false ∧ c ≠ '/' := by
      rw [List.getLast?_append_of_ne_nil _ hauthority.ne_nil]
      exact hauthority.getLast?
    obtain ⟨kept, hkept, hdrop⟩ := exists_kept path.toList
      (List.all_eq_true.mp hbefore) (List.all_eq_true.mp hbehind)
      (List.append_ne_nil_of_right_ne_nil _ hauthority.ne_nil)
      (hscheme.head? authority.toList) hends
    have htext : (before ++ scheme ++ "://" ++ authority ++ path ++ behind).toList =
        before.toList ++ (scheme.toList ++ schemeMark ++ authority.toList ++
          (path.toList ++ behind.toList)) := by
      simp only [String.toList_append, List.append_assoc]
      rfl
    refine ofText_of_parts hauthority hpath hkept ?_
    rw [parts, htext, hdrop, List.append_assoc, splitAtMark?_append_schemeMark hscheme.no_mark,
      Option.getD_some]
  | bare before authority path behind hbefore hauthority hpath hmark hbehind =>
    obtain ⟨kept, hkept, hdrop⟩ := exists_kept path.toList
      (List.all_eq_true.mp hbefore) (List.all_eq_true.mp hbehind) hauthority.ne_nil
      (fun c hc => isBlankChar_eq_false hauthority.no_blank c (List.mem_of_head? hc))
      hauthority.getLast?
    have htext : (before ++ authority ++ path ++ behind).toList =
        before.toList ++ (authority.toList ++ (path.toList ++ behind.toList)) := by
      simp only [String.toList_append, List.append_assoc]
    have hnone : splitAtMark? schemeMark (authority.toList ++ kept) = none := by
      refine splitAtMark?_eq_none fun hwithin => hmark ?_
      rw [String.toList_append]
      exact hwithin.trans ((List.prefix_append_right_inj _).mpr hkept).isInfix
    have hparts : parts (before ++ authority ++ path ++ behind) =
        ("https".toList, authority.toList ++ kept) := by
      rw [parts, htext, hdrop, hnone, Option.getD_none]
    exact ofText_of_parts hauthority hpath hkept hparts

/-- An endpoint that is spelled is spelled by its own form. -/
theorem Spells.base {text : String} {e : Endpoint} (h : Spells text e) : Spells e.base e := by
  have hfull : ∀ scheme authority, IsScheme scheme → IsAuthority authority →
      Spells (scheme ++ "://" ++ authority) ⟨scheme ++ "://" ++ authority, authority⟩ := by
    intro scheme authority hscheme hauthority
    have hpath : IsPath "" := fun _ hc => nomatch hc
    simpa using Spells.full "" scheme authority "" "" rfl hscheme hauthority hpath rfl
  cases h with
  | full before scheme authority path behind hbefore hscheme hauthority hpath hbehind =>
    exact hfull scheme authority hscheme hauthority
  | bare before authority path behind hbefore hauthority hpath hmark hbehind =>
    exact hfull "https" authority ⟨rfl, by decide⟩ hauthority

/-! ## Addresses -/

/-- The authority of an address stands between the first `://` and the next slash, or the next of
other characters that end it. -/
def IsAuthorityOf (others : List Char) (address a : String) : Prop :=
  ∃ scheme behind : String, address = scheme ++ "://" ++ a ++ behind ∧
    ¬ "://".toList <:+: scheme.toList ∧ (∀ c ∈ a.toList, c ∉ '/' :: others) ∧
    ∀ c ∈ behind.toList.head?, c ∈ '/' :: others

variable {others : List Char} {address a b : String}

theorem IsAuthorityOf.eq_takeWhile (h : IsAuthorityOf others address a) :
    ∃ scheme rest, splitAtMark? schemeMark address.toList = some (scheme, rest) ∧
      a.toList = rest.takeWhile fun c => !('/' :: others).contains c := by
  obtain ⟨scheme, behind, rfl, hmark, ha, hbehind⟩ := h
  refine ⟨scheme.toList, a.toList ++ behind.toList, ?_, ?_⟩
  · rw [splitAtMark?_eq_some_iff]
    refine ⟨?_, hmark⟩
    simp only [String.toList_append, List.append_assoc]
    rfl
  · symm
    refine takeWhile_append_eq (fun c hc => ?_) fun c hc => ?_
    · rw [Bool.not_eq_true', ← Bool.not_eq_true, List.contains_iff_mem]
      exact ha c hc
    · rw [Bool.not_eq_false', List.contains_iff_mem]
      exact hbehind c hc

theorem IsAuthorityOf.unique (h : IsAuthorityOf others address a)
    (h' : IsAuthorityOf others address b) : b = a := by
  obtain ⟨scheme, rest, hsplit, ha⟩ := h.eq_takeWhile
  obtain ⟨scheme', rest', hsplit', hb⟩ := h'.eq_takeWhile
  rw [hsplit] at hsplit'
  cases hsplit'
  rw [← String.toList_inj, hb, ha]

/-- Whatever an endpoint is read from, it is a scheme and the host. -/
theorem exists_scheme (text : String) :
    ∃ scheme : String, (ofText text).base = scheme ++ "://" ++ (ofText text).host ∧
      ¬ "://".toList <:+: scheme.toList ∧ '/' ∉ (ofText text).host.toList := by
  have hslash : '/' ∉ (ofText text).host.toList := by
    rw [ofText_eq, String.toList_ofList]
    intro hmem
    have := List.mem_takeWhile_imp hmem
    simp at this
  have hmark : ¬ schemeMark <:+: (parts text).1 := by
    unfold parts
    cases hsplit : splitAtMark? schemeMark (dropSlashes (Text.trimChars text.toList)) with
    | none => exact (by decide : ¬ schemeMark <:+: "https".toList)
    | some found => exact (splitAtMark?_eq_some_iff.mp hsplit).2
  refine ⟨String.ofList (parts text).1, by rw [ofText_eq], ?_, hslash⟩
  change ¬ schemeMark <:+: (String.ofList (parts text).1).toList
  rw [String.toList_ofList]
  exact hmark

theorem exists_url_eq (e : Endpoint) (query : String) :
    ∃ behind : String, e.url query = e.base ++ behind ∧ behind.toList.head? = some '/' := by
  unfold url
  split
  · exact ⟨"/", rfl, rfl⟩
  · refine ⟨"/?" ++ query, ?_, ?_⟩
    · dsimp only [toString]
      rw [String.append_assoc]
    · rw [String.toList_append]
      rfl

theorem isAuthorityOf_url {text : String} (hhost : ∀ c ∈ others, c ∉ (ofText text).host.toList)
    (query : String) : IsAuthorityOf others ((ofText text).url query) (ofText text).host := by
  obtain ⟨scheme, hbase, hmark, hslash⟩ := exists_scheme text
  obtain ⟨behind, hurl, hhead⟩ := exists_url_eq (ofText text) query
  refine ⟨scheme, behind, by rw [hurl, hbase], hmark, fun c hc => ?_, fun c hc => ?_⟩
  · rw [List.mem_cons, not_or]
    exact ⟨fun heq => hslash (heq ▸ hc), fun hother => hhost c hother hc⟩
  · rw [hhead] at hc
    obtain rfl : '/' = c := Option.mem_some.mp hc
    exact List.mem_cons_self

theorem isAuthorityOf_url_iff {text : String}
    (hhost : ∀ c ∈ others, c ∉ (ofText text).host.toList) (query : String) :
    IsAuthorityOf others ((ofText text).url query) a ↔ a = (ofText text).host := by
  constructor
  · exact fun h => (isAuthorityOf_url hhost query).unique h
  · rintro rfl
    exact isAuthorityOf_url hhost query

theorem endpoint_of_new {c : Credentials} {endpoint : Option String} {retries : Option UInt32}
    {client : Client} (h : Client.new c endpoint retries = .ok client) :
    client.endpoint = endpoint.elim standard ofText := by
  unfold Client.new at h
  split at h
  · cases h
  · cases h
    rfl

/-- A text that spells an endpoint is read as this endpoint, and so is the base of it. The host
that a client signs is the one authority of the address that it asks, whatever endpoint it has been
given, and also if authorities are taken to end at other characters than slashes. -/
theorem endpoint_exact :
    (∀ text e, Spells text e → ofText text = e ∧ ofText e.base = e) ∧
    ∀ (c : Credentials) (endpoint : Option String) (retries : Option UInt32) (client : Client),
      Client.new c endpoint retries = .ok client →
      client.endpoint = endpoint.elim standard ofText ∧
      ∀ (call : Call) (stamp : Stamp),
        (client.request call stamp).signedHeaders.lookup "host" = some client.endpoint.host ∧
        ∀ others : List Char, (∀ c ∈ others, c ∉ client.endpoint.host.toList) →
          ∀ a, IsAuthorityOf others (client.request call stamp).url a ↔
            a = client.endpoint.host := by
  constructor
  · intro text e h
    exact ⟨ofText_of_spells h, ofText_of_spells h.base⟩
  · intro c endpoint retries client hnew
    have hendpoint := endpoint_of_new hnew
    obtain ⟨text, htext⟩ : ∃ text, client.endpoint = ofText text := by
      cases endpoint with
      | none =>
        rw [Option.elim_none, standard] at hendpoint
        exact ⟨_, hendpoint⟩
      | some text =>
        rw [Option.elim_some] at hendpoint
        exact ⟨text, hendpoint⟩
    refine ⟨hendpoint, fun call stamp => ⟨rfl, fun others hhost a => ?_⟩⟩
    change IsAuthorityOf others (client.endpoint.url _) a ↔ _
    rw [htext] at hhost ⊢
    exact isAuthorityOf_url_iff hhost _

/-- An address with a port and a path. -/
def portAndPath : String := " http://127.0.0.1:8080/ignored "

/-- The port stays and the path goes. -/
theorem portAndPath_read :
    (Spells portAndPath ⟨"http://127.0.0.1:8080", "127.0.0.1:8080"⟩ ∧
      ∃ client, Client.new ⟨"key", "secret"⟩ (some portAndPath) none = .ok client) ∧
    ofText portAndPath = ⟨"http://127.0.0.1:8080", "127.0.0.1:8080"⟩ ∧
    ∀ client, Client.new ⟨"key", "secret"⟩ (some portAndPath) none = .ok client →
      ∀ call stamp a, IsAuthorityOf ['?', '#'] (client.request call stamp).url a ↔
        a = "127.0.0.1:8080" := by
  have htext : " " ++ "http" ++ "://" ++ "127.0.0.1:8080" ++ "/ignored" ++ " " = portAndPath := by
    decide
  have hbase : "http" ++ "://" ++ "127.0.0.1:8080" = "http://127.0.0.1:8080" := by decide
  have hspells : Spells portAndPath ⟨"http://127.0.0.1:8080", "127.0.0.1:8080"⟩ := by
    rw [← htext, ← hbase]
    have hpath : IsPath "/ignored" := by
      intro c hc
      exact (Option.mem_some.mp hc).symm
    exact .full " " "http" "127.0.0.1:8080" "/ignored" " " rfl ⟨rfl, by decide⟩
      ⟨by decide, by decide, rfl⟩ hpath rfl
  have hread := (endpoint_exact.1 _ _ hspells).1
  refine ⟨⟨hspells, _, rfl⟩, hread, ?_⟩
  intro client hnew call stamp a
  obtain ⟨hendpoint, hrequest⟩ := endpoint_exact.2 _ _ _ client hnew
  rw [Option.elim_some, hread] at hendpoint
  have hhost : ∀ c ∈ ['?', '#'], c ∉ client.endpoint.host.toList := by
    rw [hendpoint]
    exact List.forall_mem_cons.mpr ⟨by decide, List.forall_mem_singleton.mpr (by decide)⟩
  have hauthority := (hrequest call stamp).2 ['?', '#'] hhost a
  rw [hendpoint] at hauthority
  exact hauthority

end Endpoint

end WeightedDns.Wire
