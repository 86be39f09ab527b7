import Souxmar.Lib.TomlString
import Souxmar.Updater.LayoutInvariant

/-!
# When the rollback log stays readable

The log is written without escapes and read by a real TOML reader. Versions, times and digests need no
escapes, so all depends on the ids of the signing keys: the log is read back as the events that were
appended if and only if no key id has a character that a basic string cannot hold as it is.
-/

namespace Souxmar.Updater

open Lib.TomlString (QuotedString BracketFirst unescaped quoted_self quotedString_unescaped)

/-! ## What is expected of the reader -/

/-- The text needs no escapes in a basic string. -/
def BasicText (s : String) : Prop := ∀ c ∈ s.toList, unescaped c = true

instance (s : String) : Decidable (BasicText s) :=
  inferInstanceAs (Decidable (∀ c ∈ s.toList, unescaped c = true))

def RollbackEvent.Basic (e : RollbackEvent) : Prop := ∀ s ∈ e.texts, BasicText s

instance (e : RollbackEvent) : Decidable e.Basic :=
  inferInstanceAs (Decidable (∀ s ∈ e.texts, BasicText s))

/-- The lines of an event up to the string of its key id. -/
def renderOpening (e : RollbackEvent) : FileText :=
  "[[event]]\n".toList ++
  renderField "timestamp       " e.timestamp ++
  renderField "type            " (typeToString e.type) ++
  renderField "from_version    " e.fromVersion ++
  renderField "to_version      " e.toVersion ++
  renderField "artifact_sha256 " e.artifactSha256 ++
  ("public_key_id   ".toList ++ ['=', ' '])

/-- What a TOML reader does with logs. Strings without escapes are what they show. And a document is read from
its beginning: behind some events and the opening of another one, the key id of that event is the string that
stands there, if the document is accepted. -/
structure StandardToml (parse : TomlReader) : Prop where
  reads : ∀ events, events ≠ [] → (∀ e ∈ events, e.Basic) →
    parse (renderRollbackLog events) = .ok (logDocument events)
  quoted : ∀ events (e : RollbackEvent) text doc, (∀ e' ∈ events, e'.Basic) →
    ({ e with publicKeyId := "" } : RollbackEvent).Basic →
    parse (renderRollbackLog events ++ renderOpening e ++ '"' :: text) = .ok doc →
    ∃ value rest nodes fields, QuotedString ('"' :: text) value rest ∧
      doc.lookup "event" = some (.arr nodes) ∧ nodes[events.length]? = some (.table fields) ∧
      fields.lookup "public_key_id" = some (.str (String.ofList value))

/-! ## One event after the other -/

theorem renderField_quoted (name value : String) :
    renderField name value = (name.toList ++ ['=', ' ']) ++ '"' :: (value.toList ++ '"' :: ['\n']) := by
  simp [renderField]

theorem renderEvent_eq (e : RollbackEvent) : renderEvent e =
    renderOpening e ++ '"' :: (e.publicKeyId.toList ++ '"' :: '\n' :: ['\n']) := by
  obtain ⟨front, hopening, hevent⟩ : ∃ front,
      renderOpening e = front ++ ("public_key_id   ".toList ++ ['=', ' ']) ∧
        renderEvent e = front ++ renderField "public_key_id   " e.publicKeyId ++ ['\n'] := ⟨_, rfl, rfl⟩
  rw [hopening, hevent, renderField_quoted]
  generalize "public_key_id   ".toList ++ ['=', ' '] = name
  simp

theorem renderRollbackLog_append (events more : List RollbackEvent) :
    renderRollbackLog (events ++ more) = renderRollbackLog events ++ more.flatMap renderEvent := by
  rw [renderRollbackLog_eq, renderRollbackLog_eq, List.flatMap_append, List.append_assoc]

theorem bracketFirst_events (events : List RollbackEvent) :
    BracketFirst ('\n' :: events.flatMap renderEvent) := by
  intro p s h
  rcases events with _ | ⟨e, events⟩
  · rcases p with _ | ⟨c, p⟩
    · simp at h
    · simp at h
  · have hbracket : renderEvent e = '[' :: (renderEvent e).tail := rfl
    rw [List.flatMap_cons, hbracket] at h
    rcases p with _ | ⟨c, p⟩
    · simp at h
    · rcases p with _ | ⟨d, p⟩
      · simp at h
      · obtain ⟨-, h⟩ := List.cons.inj h
        obtain ⟨rfl, -⟩ := List.cons.inj h
        simp

theorem readEvents_getElem? {path : String} {nodes : List TomlNode} {events : List RollbackEvent} {idx i : ℕ}
    {node : TomlNode} (h : readEvents path idx nodes = .ok events) (hnode : nodes[i]? = some node) :
    ∃ e, events[i]? = some e ∧ readEvent path (idx + i) node = .ok e := by
  induction nodes generalizing events idx i with
  | nil => simp at hnode
  | cons first nodes ih =>
    rw [readEvents] at h
    cases hfirst : readEvent path idx first with
    | error message =>
      rw [hfirst] at h
      exact absurd h (by simp [bind, Except.bind])
    | ok e =>
      cases hrest : readEvents path (idx + 1) nodes with
      | error message =>
        rw [hfirst, hrest] at h
        exact absurd h (by simp [bind, Except.bind])
      | ok es =>
        rw [hfirst, hrest] at h
        obtain rfl : e :: es = events := Except.ok.inj h
        cases i with
        | zero =>
          obtain rfl : first = node := by simpa using hnode
          exact ⟨e, rfl, hfirst⟩
        | succ i =>
          obtain ⟨e', he', hread⟩ := ih hrest (by simpa using hnode)
          refine ⟨e', by simpa using he', ?_⟩
          rw [← Nat.add_assoc, Nat.add_right_comm]
          exact hread

theorem readEvent_publicKeyId {path : String} {idx : ℕ} {fields : TomlTable} {e : RollbackEvent} {s : String}
    (h : readEvent path idx (.table fields) = .ok e) (hkey : fields.lookup "public_key_id" = some (.str s)) :
    e.publicKeyId = s := by
  have hfield : readStringField fields "public_key_id" = s := by
    rw [readStringField, hkey]
    rfl
  unfold readEvent at h
  simp only [TomlNode.asTable] at h
  split_ifs at h
  · obtain rfl := Except.ok.inj h
    exact hfield
  · obtain rfl := Except.ok.inj h
    exact hfield

theorem load_eq_ok {parse : TomlReader} {path : String} {text : FileText} {events : List RollbackEvent}
    (h : loadRollbackLog parse path (some text) = .ok events) :
    ∃ doc, parse text = .ok doc ∧
      ∀ nodes, doc.lookup "event" = some (.arr nodes) → readEvents path 0 nodes = .ok events := by
  unfold loadRollbackLog at h
  cases hdoc : parse text with
  | error message =>
    simp only [hdoc] at h
    exact absurd h (by simp)
  | ok doc =>
    refine ⟨doc, rfl, fun nodes hnodes => ?_⟩
    simp only [hdoc] at h
    cases hschema : doc.lookup "schema" with
    | none =>
      simp only [hschema] at h
      exact absurd h (by simp)
    | some node =>
      simp only [hschema] at h
      cases hint : node.valueInt with
      | none =>
        simp only [hint] at h
        exact absurd h (by simp)
      | some schema =>
        simp only [hint] at h
        split_ifs at h
        rw [hnodes] at h
        exact h

theorem publicKeyId_basic {parse : TomlReader} (hparse : StandardToml parse) {path : String}
    {before after : List RollbackEvent} {e : RollbackEvent} (hbefore : ∀ e' ∈ before, e'.Basic)
    (he : ({ e with publicKeyId := "" } : RollbackEvent).Basic)
    (hload : loadRollbackLog parse path (some (renderRollbackLog (before ++ e :: after))) =
      .ok (before ++ e :: after)) : BasicText e.publicKeyId := by
  have htext : renderRollbackLog (before ++ e :: after) = renderRollbackLog before ++ renderOpening e ++
      '"' :: (e.publicKeyId.toList ++ '"' :: '\n' :: ('\n' :: after.flatMap renderEvent)) := by
    rw [renderRollbackLog_append, List.flatMap_cons, renderEvent_eq]
    simp only [List.append_assoc, List.cons_append, List.nil_append]
  rw [htext] at hload
  obtain ⟨doc, hdoc, hread⟩ := load_eq_ok hload
  obtain ⟨value, rest, nodes, fields, hquoted, hnodes, hnode, hkey⟩ :=
    hparse.quoted before e _ doc hbefore he hdoc
  obtain ⟨e', he', hevent⟩ := readEvents_getElem? (hread nodes hnodes) hnode
  obtain rfl : e = e' := by simpa using he'
  have hvalue := readEvent_publicKeyId hevent hkey
  have htoList : e.publicKeyId.toList = value := by rw [hvalue, String.toList_ofList]
  rw [← htoList] at hquoted
  exact quoted_self (bracketFirst_events after) hquoted

/-! ## The events that are appended -/

/-- A version as the gate lets it pass. -/
def IsVersion (s : String) : Prop := ∃ v, versionOf s = some v

/-- The events of `apply_update` and `rollback`. -/
inductive Appended (env : Env) : RollbackEvent → Prop
  | apply {ctx : ApplyContext} {s : UpdateState} {u : UpdateApply} {fromVersion : String}
      (verified : Verified env ctx s u) (installed : fromVersion = "" ∨ IsVersion fromVersion) :
      Appended env (applyEvent ctx u fromVersion)
  | rollback {now : TimePoint} {current target : String} (leaves : IsVersion current)
      (returns : IsVersion target) : Appended env (rollbackEvent now current target)

theorem PlainText.basic {s : String} (h : PlainText s) : BasicText s := h

theorem IsVersion.basic {s : String} (h : IsVersion s) : BasicText s := by
  obtain ⟨v, hv⟩ := h
  exact (plainText_of_versionOf hv).basic

theorem basic_iff (e : RollbackEvent) :
    e.Basic ↔ ({ e with publicKeyId := "" } : RollbackEvent).Basic ∧ BasicText e.publicKeyId := by
  have hempty : BasicText "" := plainText_empty.basic
  simp only [RollbackEvent.Basic, RollbackEvent.texts, List.forall_mem_cons]
  tauto

theorem Appended.basic {env : Env} (hhex : ∀ bytes, PlainText (env.sha256Hex bytes)) {e : RollbackEvent}
    (h : Appended env e) : ({ e with publicKeyId := "" } : RollbackEvent).Basic := by
  have hempty : BasicText "" := plainText_empty.basic
  simp only [RollbackEvent.Basic, RollbackEvent.texts, List.forall_mem_cons]
  cases h with
  | @apply ctx s u fromVersion verified installed =>
    have hsha : BasicText u.artifact.sha256 := by
      rw [← verified.sha256]
      exact (hhex ctx.artifactBytes).basic
    refine ⟨(plainText_formatRfc3339Utc _).basic, ?_,
      IsVersion.basic verified.accepts.floor.1, hsha, hempty, fun _ hs => absurd hs List.not_mem_nil⟩
    rcases installed with rfl | h
    · exact hempty
    · exact h.basic
  | rollback leaves returns =>
    exact ⟨(plainText_formatRfc3339Utc _).basic, leaves.basic, returns.basic, hempty, hempty,
      fun _ hs => absurd hs List.not_mem_nil⟩

/-- The log of these events loads as them, and so it did after every append. -/
structure LogReadable (parse : TomlReader) (path : String) (events : List RollbackEvent) : Prop where
  load : loadRollbackLog parse path (logText events) = .ok events
  append : ∀ before e, before ++ [e] <+: events →
    appendRollbackEvent parse {} path (logText before) e = (true, logText (before ++ [e])) ∧
      loadRollbackLog parse path (logText (before ++ [e])) = .ok (before ++ [e])

theorem load_basic {parse : TomlReader} (hparse : StandardToml parse) (path : String)
    {events : List RollbackEvent} (h : ∀ e ∈ events, e.Basic) :
    loadRollbackLog parse path (logText events) = .ok events :=
  load_of_document path fun hempty => hparse.reads events hempty h

theorem keys_basic_of_load {parse : TomlReader} (hparse : StandardToml parse) {path : String}
    {events : List RollbackEvent}
    (hevents : ∀ e ∈ events, ({ e with publicKeyId := "" } : RollbackEvent).Basic)
    (hload : loadRollbackLog parse path (logText events) = .ok events) :
    ∀ e ∈ events, BasicText e.publicKeyId := by
  have hbefore : ∀ before after, events = before ++ after → ∀ e ∈ before, BasicText e.publicKeyId := by
    intro before
    induction before using List.reverseRecOn with
    | nil => exact fun _ _ e he => absurd he List.not_mem_nil
    | append_singleton before last ih =>
      intro after hsplit
      rw [List.append_assoc, List.singleton_append] at hsplit
      have hkeys := ih (last :: after) hsplit
      have hbasic : ∀ e ∈ before, e.Basic := fun e he =>
        (basic_iff e).mpr ⟨hevents e (hsplit ▸ List.mem_append_left _ he), hkeys e he⟩
      have hlast := hevents last (hsplit ▸ List.mem_append_right _ List.mem_cons_self)
      have hne : events ≠ [] := hsplit ▸ List.append_ne_nil_of_right_ne_nil _ (List.cons_ne_nil _ _)
      rw [logText, if_neg hne, hsplit] at hload
      intro e he
      rcases List.mem_append.mp he with he | he
      · exact hkeys e he
      · obtain rfl := List.mem_singleton.mp he
        exact publicKeyId_basic hparse hbasic hlast hload
  exact hbefore events [] (List.append_nil events).symm

/-- The log stays readable exactly as long as no key id needs escapes. -/
theorem log_readable_iff {env : Env} (hparse : StandardToml env.parse)
    (hhex : ∀ bytes, PlainText (env.sha256Hex bytes)) (path : String) {events : List RollbackEvent}
    (hevents : ∀ e ∈ events, Appended env e) :
    LogReadable env.parse path events ↔ ∀ e ∈ events, BasicText e.publicKeyId := by
  have hrest : ∀ e ∈ events, ({ e with publicKeyId := "" } : RollbackEvent).Basic := fun e he =>
    (hevents e he).basic hhex
  constructor
  · intro h
    exact keys_basic_of_load hparse hrest h.load
  · intro h
    have hbasic : ∀ e ∈ events, e.Basic := fun e he => (basic_iff e).mpr ⟨hrest e he, h e he⟩
    refine ⟨load_basic hparse path hbasic, fun before e hpre => ?_⟩
    have hmem : ∀ e' ∈ before ++ [e], e'.Basic := fun e' he' => hbasic e' (hpre.subset he')
    exact ⟨append_of_load (load_basic hparse path fun e' he' => hmem e' (List.mem_append_left _ he')) e,
      load_basic hparse path hmem⟩

/-! ## A reader -/

/-- A reader of logs without escapes that refuses any other text. -/
def checkedLines : TomlReader := fun text =>
  match loadRollbackLog tomlLines "" (some text) with
  | .error message => .error message
  | .ok events =>
    if renderRollbackLog events = text ∧ ∀ e ∈ events, e.Basic then .ok (logDocument events)
    else .error "not a log"

theorem BasicText.notMem {s : String} (h : BasicText s) : '\n' ∉ s.toList ∧ '"' ∉ s.toList := by
  constructor
  · intro hmem
    exact absurd (h _ hmem) (by decide)
  · intro hmem
    exact absurd (h _ hmem) (by decide)

theorem checkedLines_reads {events : List RollbackEvent} (hempty : events ≠ []) (h : ∀ e ∈ events, e.Basic) :
    checkedLines (renderRollbackLog events) = .ok (logDocument events) := by
  have hload : loadRollbackLog tomlLines "" (logText events) = .ok events :=
    load_of_document "" fun _ => tomlLines_oneLine fun e he s hs => (h e he s hs).notMem.1
  rw [logText, if_neg hempty] at hload
  rw [checkedLines, hload]
  exact if_pos ⟨rfl, h⟩

theorem checkedLines_ok {text : FileText} {doc : TomlTable} (h : checkedLines text = .ok doc) :
    ∃ events, renderRollbackLog events = text ∧ (∀ e ∈ events, e.Basic) ∧ doc = logDocument events := by
  rw [checkedLines] at h
  cases hload : loadRollbackLog tomlLines "" (some text) with
  | error message =>
    rw [hload] at h
    exact absurd h (by simp)
  | ok events =>
    rw [hload] at h
    dsimp only at h
    split_ifs at h with hcheck
    exact ⟨events, hcheck.1, hcheck.2, (Except.ok.inj h).symm⟩

theorem quote_cancel {l l' X Y : List Char} (hl : '"' ∉ l) (hl' : '"' ∉ l')
    (h : l ++ '"' :: X = l' ++ '"' :: Y) : X = Y := by
  induction l generalizing l' with
  | nil =>
    rcases l' with _ | ⟨c, l'⟩
    · exact (List.cons.inj h).2
    · obtain ⟨rfl, -⟩ := List.cons.inj h
      exact absurd List.mem_cons_self hl'
  | cons c l ih =>
    rcases l' with _ | ⟨d, l'⟩
    · obtain ⟨rfl, -⟩ := List.cons.inj h
      exact absurd List.mem_cons_self hl
    · exact ih (List.not_mem_of_not_mem_cons hl) (List.not_mem_of_not_mem_cons hl') (List.cons.inj h).2

theorem renderField_cancel {name v v' : String} (hv : '"' ∉ v.toList) (hv' : '"' ∉ v'.toList)
    {X Y : FileText} (h : renderField name v ++ X = renderField name v' ++ Y) : X = Y := by
  rw [renderField_quoted, renderField_quoted] at h
  generalize name.toList ++ ['=', ' '] = front at h
  simp only [List.append_assoc, List.cons_append, List.nil_append] at h
  have hquoted := (List.cons.inj (List.append_cancel_left h)).2
  exact (List.cons.inj (quote_cancel hv hv' hquoted)).2

theorem notMem_quote_typeToString (type : RollbackEventType) : '"' ∉ (typeToString type).toList := by
  cases type <;> decide

theorem renderOpening_cancel {e e' : RollbackEvent} (he : ({ e with publicKeyId := "" } : RollbackEvent).Basic)
    (he' : ({ e' with publicKeyId := "" } : RollbackEvent).Basic) {X Y : FileText}
    (h : renderOpening e ++ X = renderOpening e' ++ Y) : X = Y := by
  simp only [RollbackEvent.Basic, RollbackEvent.texts, List.forall_mem_cons] at he he'
  obtain ⟨htimestamp, hfrom, hto, hsha, -⟩ := he
  obtain ⟨htimestamp', hfrom', hto', hsha', -⟩ := he'
  unfold renderOpening at h
  simp only [List.append_assoc] at h
  have h := renderField_cancel htimestamp.notMem.2 htimestamp'.notMem.2 (List.append_cancel_left h)
  have h := renderField_cancel (notMem_quote_typeToString _) (notMem_quote_typeToString _) h
  have h := renderField_cancel hfrom.notMem.2 hfrom'.notMem.2 h
  have h := renderField_cancel hto.notMem.2 hto'.notMem.2 h
  have h := renderField_cancel hsha.notMem.2 hsha'.notMem.2 h
  exact List.append_cancel_left (List.append_cancel_left h)

theorem renderEvents_split {logged events : List RollbackEvent} (hlogged : ∀ e ∈ logged, e.Basic)
    (hevents : ∀ e ∈ events, e.Basic) {e : RollbackEvent} {text : FileText}
    (he : ({ e with publicKeyId := "" } : RollbackEvent).Basic)
    (h : logged.flatMap renderEvent = events.flatMap renderEvent ++ (renderOpening e ++ '"' :: text)) :
    ∃ e' rest, logged[events.length]? = some e' ∧ BasicText e'.publicKeyId ∧
      text = e'.publicKeyId.toList ++ '"' :: '\n' :: rest := by
  induction events generalizing logged with
  | nil =>
    rcases logged with _ | ⟨e', logged⟩
    · simp at h
    · obtain ⟨hopening, hkey⟩ := (basic_iff e').mp (hlogged e' List.mem_cons_self)
      rw [List.flatMap_cons, List.flatMap_nil, List.nil_append, renderEvent_eq, List.append_assoc] at h
      have htext : e'.publicKeyId.toList ++ '"' :: '\n' :: ['\n'] ++ logged.flatMap renderEvent = text :=
        (List.cons.inj (renderOpening_cancel hopening he h)).2
      refine ⟨e', '\n' :: logged.flatMap renderEvent, rfl, hkey, ?_⟩
      rw [← htext]
      simp only [List.append_assoc, List.cons_append, List.nil_append]
  | cons first events ih =>
    obtain ⟨hfirst, hevents⟩ := List.forall_mem_cons.mp hevents
    rcases logged with _ | ⟨e', logged⟩
    · have hne : renderEvent first ≠ [] := by
        rw [renderEvent_eq]
        simp
      simp [hne] at h
    · obtain ⟨hopening, hkey⟩ := (basic_iff first).mp hfirst
      obtain ⟨hopening', hkey'⟩ := (basic_iff e').mp (hlogged e' List.mem_cons_self)
      rw [List.flatMap_cons, List.flatMap_cons, List.append_assoc, renderEvent_eq, renderEvent_eq,
        List.append_assoc, List.append_assoc] at h
      have hquoted : e'.publicKeyId.toList ++ '"' :: '\n' :: ['\n'] ++ logged.flatMap renderEvent =
          first.publicKeyId.toList ++ '"' :: '\n' :: ['\n'] ++
            (events.flatMap renderEvent ++ (renderOpening e ++ '"' :: text)) :=
        (List.cons.inj (renderOpening_cancel hopening' hopening h)).2
      simp only [List.append_assoc, List.cons_append, List.nil_append] at hquoted
      have hrest := quote_cancel hkey'.notMem.2 hkey.notMem.2 hquoted
      obtain ⟨e'', rest, hnext, htail⟩ :=
        ih (fun d hd => hlogged d (List.mem_cons_of_mem _ hd)) hevents (by simpa using hrest)
      exact ⟨e'', rest, by simpa using hnext, htail⟩

theorem checkedLines_standard : StandardToml checkedLines where
  reads _ hempty h := checkedLines_reads hempty h
  quoted events e text doc hevents he hdoc := by
    obtain ⟨logged, hlogged, hbasic, rfl⟩ := checkedLines_ok hdoc
    rw [renderRollbackLog_eq, renderRollbackLog_eq, List.append_assoc, List.append_assoc] at hlogged
    obtain ⟨e', rest, hnext, hkey, rfl⟩ :=
      renderEvents_split hbasic hevents he (by simpa using List.append_cancel_left hlogged)
    refine ⟨e'.publicKeyId.toList, '\n' :: rest, _, eventTable e', quotedString_unescaped hkey rest, rfl, ?_, ?_⟩
    · rw [List.getElem?_map, hnext]
      rfl
    · rw [String.ofList_toList]
      rfl

/-! ## A key id with a quote -/

def checkedEnv : Env := { sampleEnv with parse := checkedLines }

/-- The first install, of a release that is signed with this key. -/
def keyContext (publicKeyId : String) : ApplyContext :=
  { sampleContext "1.0.0" "" [1] with
    manifest := { sampleManifest "1.0.0" "" [1] with signing := ⟨"ed25519", publicKeyId⟩ } }

def keyUpdate : UpdateApply :=
  ⟨"1.0.0", ⟨.linux, .x86_64, "souxmar.tar.gz", checkedEnv.sha256Hex [1], 1⟩, false⟩

theorem checkedEnv_sha256Hex_plain (bytes : List UInt8) : PlainText (checkedEnv.sha256Hex bytes) :=
  sampleEnv_sha256Hex_plain bytes

/-- An install and the way back. -/
theorem log_readable_dev_key : LogReadable checkedLines "/opt/souxmar/rollback.log"
    [applyEvent (keyContext "souxmar-dev-key") keyUpdate "", rollbackEvent (fromTimeT 1778580000) "1.0.0" "0.9.0"] := by
  refine (log_readable_iff checkedLines_standard checkedEnv_sha256Hex_plain _ ?_).mpr ?_
  · refine List.forall_mem_cons.mpr ⟨?_, List.forall_mem_singleton.mpr ?_⟩
    · exact .apply (s := {}) ⟨by decide, rfl, rfl⟩ (Or.inl rfl)
    · exact .rollback ⟨⟨1, 0, 0⟩, by decide⟩ ⟨⟨0, 9, 0⟩, by decide⟩
  · refine List.forall_mem_cons.mpr ⟨?_, List.forall_mem_singleton.mpr ?_⟩
    · decide
    · decide

/-- After an install that is signed with a key named `k"` the log cannot be loaded. -/
theorem quoted_key_unreadable :
    ¬∀ env : Env, StandardToml env.parse → (∀ bytes, PlainText (env.sha256Hex bytes)) →
      ∀ path events, (∀ e ∈ events, Appended env e) → LogReadable env.parse path events := by
  intro h
  have happended : ∀ e ∈ [applyEvent (keyContext "k\"") keyUpdate ""], Appended checkedEnv e :=
    List.forall_mem_singleton.mpr (.apply (s := {}) ⟨by decide, rfl, rfl⟩ (Or.inl rfl))
  have hreadable := h checkedEnv checkedLines_standard checkedEnv_sha256Hex_plain "rollback.log" _ happended
  have hkeys := keys_basic_of_load checkedLines_standard
    (fun e he => (happended e he).basic checkedEnv_sha256Hex_plain) hreadable.load
  exact absurd (List.forall_mem_singleton.mp hkeys) (by decide)

end Souxmar.Updater
