import Mathlib.Tactic.IntervalCases
import Souxmar.Lib.CharList
import Souxmar.Updater.Apply

/-!
# The rollback log on disk

`render_rollback_log` quotes its values without escaping anything, so what it writes is the intended
document as long as the values need no escapes (`PlainText`). `ReadsLogs` is what the updater expects of
a TOML reader on such documents; `tomlLines_reads` shows a reader that meets it. `load_append` is the
round trip: what is appended is what is loaded next.
-/

namespace Souxmar.Updater

/-- A character that stands for itself in a basic string of TOML. -/
def plainChar (c : Char) : Bool :=
  (c = '\t' || decide (0x20 ≤ c.toNat)) && c ≠ '"' && c ≠ '\\' && c.toNat ≠ 0x7F

def PlainText (s : String) : Prop := ∀ c ∈ s.toList, plainChar c = true

structure RollbackEvent.Plain (e : RollbackEvent) : Prop where
  timestamp : PlainText e.timestamp
  fromVersion : PlainText e.fromVersion
  toVersion : PlainText e.toVersion
  artifactSha256 : PlainText e.artifactSha256
  publicKeyId : PlainText e.publicKeyId

/-- The table of an `[[event]]` entry. -/
def eventTable (e : RollbackEvent) : TomlTable :=
  [("timestamp", .str e.timestamp), ("type", .str (typeToString e.type)),
    ("from_version", .str e.fromVersion), ("to_version", .str e.toVersion),
    ("artifact_sha256", .str e.artifactSha256), ("public_key_id", .str e.publicKeyId)]

/-- The document that a log with some events stands for. -/
def logDocument (events : List RollbackEvent) : TomlTable :=
  [("schema", .int kRollbackLogSchemaV1), ("event", .arr (events.map fun e => .table (eventTable e)))]

/-- The reader reads a log whose values need no escapes. -/
def ReadsLogs (parse : TomlReader) : Prop :=
  ∀ events, events ≠ [] → (∀ e ∈ events, e.Plain) →
    parse (renderRollbackLog events) = .ok (logDocument events)

/-! ### Loading what was written -/

theorem readEvent_eventTable (path : String) (idx : ℕ) (e : RollbackEvent) :
    readEvent path idx (.table (eventTable e)) = .ok e := by
  obtain ⟨timestamp, type, fromVersion, toVersion, sha, key⟩ := e
  cases type <;> rfl

theorem readEvents_eventTable (path : String) (idx : ℕ) (events : List RollbackEvent) :
    readEvents path idx (events.map fun e => .table (eventTable e)) = .ok events := by
  induction events generalizing idx with
  | nil => rfl
  | cons e events ih =>
    rw [List.map_cons, readEvents, readEvent_eventTable, ih]
    rfl

/-- What the log holds: nothing yet, or rendered events. -/
def logText (events : List RollbackEvent) : Option FileText :=
  if events = [] then none else some (renderRollbackLog events)

theorem load_of_document {parse : TomlReader} (path : String) {events : List RollbackEvent}
    (hdoc : events ≠ [] → parse (renderRollbackLog events) = .ok (logDocument events)) :
    loadRollbackLog parse path (logText events) = .ok events := by
  unfold logText
  split_ifs with hempty
  · rw [hempty]
    rfl
  · have hread := readEvents_eventTable path 0 events
    simp only [loadRollbackLog, hdoc hempty]
    exact hread

theorem load_logText {parse : TomlReader} (hparse : ReadsLogs parse) (path : String)
    {events : List RollbackEvent} (hplain : ∀ e ∈ events, e.Plain) :
    loadRollbackLog parse path (logText events) = .ok events :=
  load_of_document path fun hempty => hparse events hempty hplain

theorem append_of_load {parse : TomlReader} {path : String} {events : List RollbackEvent}
    (hload : loadRollbackLog parse path (logText events) = .ok events) (event : RollbackEvent) :
    appendRollbackEvent parse {} path (logText events) event =
      (true, logText (events ++ [event])) := by
  have hne : events ++ [event] ≠ [] := List.append_ne_nil_of_right_ne_nil _ (List.cons_ne_nil _ _)
  have hnew : logText (events ++ [event]) = some (renderRollbackLog (events ++ [event])) := by
    rw [logText, if_neg hne]
  rw [hnew, appendRollbackEvent, hload]
  rfl

theorem append_logText {parse : TomlReader} (hparse : ReadsLogs parse) (path : String)
    {events : List RollbackEvent} (hplain : ∀ e ∈ events, e.Plain) (event : RollbackEvent) :
    appendRollbackEvent parse {} path (logText events) event =
      (true, logText (events ++ [event])) :=
  append_of_load (load_logText hparse path hplain) event

/-! ### Texts that need no escapes -/

theorem plainText_empty : PlainText "" := fun _ hc => nomatch hc

theorem plainChar_of_digit {c : Char} (h : notDigit c = false) : plainChar c = true := by
  rw [notDigit, Bool.or_eq_false_iff, decide_eq_false_iff_not, decide_eq_false_iff_not] at h
  have hlow : 48 ≤ c.toNat := UInt32.not_lt.mp h.1
  have hhigh : c.toNat ≤ 57 := UInt32.not_lt.mp h.2
  have hquote : c ≠ '"' := fun heq => by subst heq; exact absurd hlow (by decide)
  have hslash : c ≠ '\\' := fun heq => by subst heq; exact absurd hhigh (by decide)
  simp [plainChar, hquote, hslash]
  omega

theorem plainText_of_versionOf {s : String} {v : Version} (h : versionOf s = some v) :
    PlainText s := by
  intro c hc
  rcases chars_of_versionOf h c hc with rfl | hdigit
  · decide
  · exact plainChar_of_digit hdigit

theorem plainChar_digitChar (v : ℤ) : plainChar (digitChar v) = true := by
  have hlt : (v % 10).toNat < 10 := by omega
  unfold digitChar
  generalize (v % 10).toNat = n at hlt
  interval_cases n <;> decide

theorem plainText_formatRfc3339Utc (t : TimePoint) : PlainText (formatRfc3339Utc t) := by
  intro c hc
  unfold formatRfc3339Utc at hc
  rw [String.toList_ofList] at hc
  simp only [put2, List.mem_append, List.mem_cons, List.not_mem_nil, or_false, or_assoc] at hc
  rcases hc with h | h | h | h | h | h | h | h | h | h | h | h | h | h | h | h | h | h | h | h
  all_goals subst h
  all_goals first
    | exact plainChar_digitChar _
    | rfl

/-! ### The fragment reader -/

theorem notMem_newline_of_plain {s : String} (h : PlainText s) : '\n' ∉ s.toList := fun hmem =>
  absurd (h '\n' hmem) (by decide)

theorem splitOn_lines {lines : List (List Char)} (h : ∀ line ∈ lines, '\n' ∉ line)
    (rest : List Char) :
    (lines.flatMap (· ++ ['\n']) ++ rest).splitOn '\n' = lines ++ rest.splitOn '\n' := by
  induction lines with
  | nil => rfl
  | cons line lines ih =>
    rw [List.flatMap_cons, List.append_assoc, List.append_assoc, List.singleton_append,
      List.splitOn_append_cons_self_of_not_mem (h line List.mem_cons_self),
      ih fun l hl => h l (List.mem_cons_of_mem _ hl)]
    rfl

/-- A line that `renderField` writes, without its end. -/
def fieldLine (name value : String) : List Char :=
  name.toList ++ ['=', ' ', '"'] ++ value.toList ++ ['"']

theorem renderField_eq (name value : String) :
    renderField name value = fieldLine name value ++ ['\n'] := by
  simp [renderField, fieldLine]

theorem tomlScalar_quoted (value : String) : tomlScalar ('"' :: (value.toList ++ ['"'])) = .str value := by
  rw [tomlScalar, List.dropLast_concat, String.ofList_toList]

theorem tomlLine_field {name : String} {key : List Char} {c : Char} {n : ℕ}
    (hname : name.toList = (c :: key) ++ List.replicate (n + 1) ' ')
    (hkey : ∀ d ∈ c :: key, d ≠ ' ') (hc : c ≠ '#' ∧ c ≠ '[') (value : String)
    (acc : TomlTable × List TomlNode) :
    tomlLine (fieldLine name value) acc =
      ((String.ofList (c :: key), .str value) :: acc.1, acc.2) := by
  have hline : fieldLine name value = (c :: key) ++
      (List.replicate (n + 1) ' ' ++ ('=' :: ' ' :: '"' :: (value.toList ++ ['"']))) := by
    rw [fieldLine, hname]
    simp
  have hheader : fieldLine name value ≠ "[[event]]".toList := by
    rw [hline]
    intro heq
    exact hc.2 (List.cons.inj heq).1
  have hkeyed : (fieldLine name value).takeWhile (· ≠ ' ') = c :: key := by
    rw [hline, List.takeWhile_append_of_pos (by simpa using hkey), List.replicate_succ]
    simp
  have hspaces : ∀ rest : List Char, rest.head? ≠ some ' ' →
      (List.replicate (n + 1) ' ' ++ rest).dropWhile (· = ' ') = rest := by
    intro rest hrest
    rw [List.dropWhile_append_of_pos (by simp)]
    cases rest with
    | nil => rfl
    | cons d ds => exact List.dropWhile_cons_of_neg (by simpa using hrest)
  have hrest : ((fieldLine name value).drop (c :: key).length).dropWhile (· = ' ') =
      '=' :: ' ' :: '"' :: (value.toList ++ ['"']) := by
    rw [hline, List.drop_left, hspaces _ (by simp)]
  have hfield : tomlField (fieldLine name value) = (String.ofList (c :: key), .str value) := by
    have hblank : (' ' :: '"' :: (value.toList ++ ['"'])).dropWhile (· = ' ') =
        '"' :: (value.toList ++ ['"']) := by
      rw [List.dropWhile_cons_of_pos (by simp), List.dropWhile_cons_of_neg (by simp)]
    unfold tomlField
    dsimp only
    rw [hkeyed, hrest, List.drop_succ_cons, List.drop_zero, hblank, tomlScalar_quoted]
  have hcomment : ((fieldLine name value).isEmpty || (fieldLine name value).head? = some '#') =
      false := by
    rw [hline]
    simpa using hc.1
  unfold tomlLine
  rw [hcomment, if_neg (by simp), if_neg hheader, hfield]

/-- The lines of an event, up to the blank line after it. -/
def eventLines (e : RollbackEvent) : List (List Char) :=
  ["[[event]]".toList, fieldLine "timestamp       " e.timestamp,
    fieldLine "type            " (typeToString e.type), fieldLine "from_version    " e.fromVersion,
    fieldLine "to_version      " e.toVersion, fieldLine "artifact_sha256 " e.artifactSha256,
    fieldLine "public_key_id   " e.publicKeyId, []]

theorem notMem_newline_fieldLine {name value : String} (hname : '\n' ∉ name.toList)
    (hvalue : '\n' ∉ value.toList) : '\n' ∉ fieldLine name value := by
  simp [fieldLine, hname, hvalue]

theorem plainText_typeToString (type : RollbackEventType) : PlainText (typeToString type) := by
  cases type <;> (intro c hc; revert c; decide)

/-- The texts of an event, but for its type. -/
def RollbackEvent.texts (e : RollbackEvent) : List String :=
  [e.timestamp, e.fromVersion, e.toVersion, e.artifactSha256, e.publicKeyId]

/-- Each text of the event stays on its line. -/
def RollbackEvent.OneLine (e : RollbackEvent) : Prop := ∀ s ∈ e.texts, '\n' ∉ s.toList

theorem RollbackEvent.Plain.oneLine {e : RollbackEvent} (h : e.Plain) : e.OneLine := by
  intro s hs
  simp only [RollbackEvent.texts, List.mem_cons, List.not_mem_nil, or_false] at hs
  rcases hs with rfl | rfl | rfl | rfl | rfl
  · exact notMem_newline_of_plain h.timestamp
  · exact notMem_newline_of_plain h.fromVersion
  · exact notMem_newline_of_plain h.toVersion
  · exact notMem_newline_of_plain h.artifactSha256
  · exact notMem_newline_of_plain h.publicKeyId

theorem splitOn_renderEvent {e : RollbackEvent} (h : e.OneLine) (rest : List Char) :
    (renderEvent e ++ rest).splitOn '\n' = eventLines e ++ rest.splitOn '\n' := by
  have hheader : "[[event]]\n".toList = "[[event]]".toList ++ ['\n'] := by decide
  have htext : renderEvent e ++ rest = (eventLines e).flatMap (· ++ ['\n']) ++ rest := by
    unfold renderEvent eventLines
    simp only [renderField_eq, hheader, List.flatMap_cons, List.flatMap_nil, List.append_assoc,
      List.nil_append, List.append_nil]
  rw [htext, splitOn_lines]
  intro line hline
  simp only [eventLines, List.mem_cons, List.not_mem_nil, or_false] at hline
  rcases hline with rfl | rfl | rfl | rfl | rfl | rfl | rfl | rfl
  · decide
  · exact notMem_newline_fieldLine (by decide) (h _ (by simp [RollbackEvent.texts]))
  · exact notMem_newline_fieldLine (by decide) (notMem_newline_of_plain (plainText_typeToString e.type))
  · exact notMem_newline_fieldLine (by decide) (h _ (by simp [RollbackEvent.texts]))
  · exact notMem_newline_fieldLine (by decide) (h _ (by simp [RollbackEvent.texts]))
  · exact notMem_newline_fieldLine (by decide) (h _ (by simp [RollbackEvent.texts]))
  · exact notMem_newline_fieldLine (by decide) (h _ (by simp [RollbackEvent.texts]))
  · decide

theorem foldr_eventLines (e : RollbackEvent) (nodes : List TomlNode) :
    (eventLines e).foldr tomlLine ([], nodes) = ([], .table (eventTable e) :: nodes) := by
  have hblank : ∀ acc, tomlLine [] acc = acc := fun _ => rfl
  have hheader : ∀ acc, tomlLine "[[event]]".toList acc = ([], .table acc.1 :: acc.2) := fun _ => rfl
  have hfield : ∀ (key : String) (n : ℕ) (name value : String) acc,
      name.toList = key.toList ++ List.replicate (n + 1) ' ' → (∀ d ∈ key.toList, d ≠ ' ') →
      (∃ c, key.toList.head? = some c ∧ c ≠ '#' ∧ c ≠ '[') →
      tomlLine (fieldLine name value) acc = ((key, .str value) :: acc.1, acc.2) := by
    rintro key n name value acc hname hkey ⟨c, hhead, hc⟩
    cases hlist : key.toList with
    | nil => rw [hlist] at hhead; exact nomatch hhead
    | cons d ds =>
      rw [hlist] at hname hkey hhead
      obtain rfl := Option.some.inj hhead
      rw [tomlLine_field hname hkey hc, ← hlist, String.ofList_toList]
  unfold eventLines eventTable
  simp only [List.foldr_cons, List.foldr_nil]
  rw [hfield "timestamp" 6 _ _ _ (by decide) (by decide) ⟨'t', rfl, by decide⟩,
    hfield "type" 11 _ _ _ (by decide) (by decide) ⟨'t', rfl, by decide⟩,
    hfield "from_version" 3 _ _ _ (by decide) (by decide) ⟨'f', rfl, by decide⟩,
    hfield "to_version" 5 _ _ _ (by decide) (by decide) ⟨'t', rfl, by decide⟩,
    hfield "artifact_sha256" 0 _ _ _ (by decide) (by decide) ⟨'a', rfl, by decide⟩,
    hfield "public_key_id" 2 _ _ _ (by decide) (by decide) ⟨'p', rfl, by decide⟩, hblank, hheader]

/-- The lines before the first event. -/
def headerLines : List (List Char) :=
  ["# souxmar auto-updater rollback / apply event log. Schema is".toList,
    "# locked by ADR-0013; append-only — do not hand-edit unless".toList,
    "# you also bump `schema`.".toList, "schema = 1".toList, []]

theorem renderRollbackLog_eq (events : List RollbackEvent) :
    renderRollbackLog events = headerLines.flatMap (· ++ ['\n']) ++ events.flatMap renderEvent := by
  have hnl : ∀ s : String, (s ++ "\n").toList = s.toList ++ ['\n'] := fun s => by
    rw [String.toList_append]
    rfl
  have hone := hnl "# souxmar auto-updater rollback / apply event log. Schema is"
  have htwo := hnl "# locked by ADR-0013; append-only — do not hand-edit unless"
  have hthree := hnl "# you also bump `schema`."
  unfold renderRollbackLog headerLines
  rw [show "# souxmar auto-updater rollback / apply event log. Schema is\n" =
      "# souxmar auto-updater rollback / apply event log. Schema is" ++ "\n" from rfl,
    show "# locked by ADR-0013; append-only — do not hand-edit unless\n" =
      "# locked by ADR-0013; append-only — do not hand-edit unless" ++ "\n" from rfl,
    show "# you also bump `schema`.\n" = "# you also bump `schema`." ++ "\n" from rfl,
    hone, htwo, hthree]
  simp only [List.flatMap_cons, List.flatMap_nil, List.append_assoc, List.append_nil,
    List.nil_append]
  rfl

theorem splitOn_renderEvents {events : List RollbackEvent} (h : ∀ e ∈ events, e.OneLine) :
    (events.flatMap renderEvent).splitOn '\n' = events.flatMap eventLines ++ [[]] := by
  induction events with
  | nil => rfl
  | cons e events ih =>
    rw [List.flatMap_cons, splitOn_renderEvent (h e List.mem_cons_self),
      ih fun e' he' => h e' (List.mem_cons_of_mem _ he'), List.flatMap_cons, List.append_assoc]

theorem tomlLines_oneLine {events : List RollbackEvent} (hlines : ∀ e ∈ events, e.OneLine) :
    tomlLines (renderRollbackLog events) = .ok (logDocument events) := by
  have hevents : ∀ es : List RollbackEvent, (es.flatMap eventLines ++ [[]]).foldr tomlLine ([], []) =
      ([], es.map fun e => .table (eventTable e)) := by
    intro es
    induction es with
    | nil => rfl
    | cons e es ih =>
      rw [List.flatMap_cons, List.append_assoc, List.foldr_append, ih, foldr_eventLines, List.map_cons]
  have hsplit : (renderRollbackLog events).splitOn '\n' =
      headerLines ++ (events.flatMap eventLines ++ [[]]) := by
    rw [renderRollbackLog_eq, splitOn_lines, splitOn_renderEvents hlines]
    decide
  have hheader : ∀ nodes, headerLines.foldr tomlLine ([], nodes) =
      ([("schema", .int kRollbackLogSchemaV1)], nodes) := fun _ => rfl
  unfold tomlLines
  rw [hsplit, List.foldr_append, hevents, hheader]
  rfl

/-- The fragment reader reads the logs that the updater writes. -/
theorem tomlLines_reads : ReadsLogs tomlLines := fun _ _ hplain =>
  tomlLines_oneLine fun e he => (hplain e he).oneLine

end Souxmar.Updater
