import Souxmar.Lib.CurlConfig
import Souxmar.Lib.Decimal

/-!
# The curl configurations of the providers

`render_curl_config` of both providers in `provider.cpp`, and what curl reads out of its result. Texts are bytes.
-/

namespace Souxmar.Ai

open Souxmar.Lib Souxmar.Lib.CurlConfig

def curlConfigEscape (c : UInt8) : Bytes :=
  if c = backslash then ascii "\\\\"
  else if c = quote then ascii "\\\""
  else if c = 0x09 then ascii "\\t"
  else if c = 0x0A then ascii "\\n"
  else if c = 0x0D then ascii "\\r"
  else [c]

def curlConfigEscapeAppend (out s : Bytes) : Bytes :=
  out ++ [quote] ++ s.flatMap curlConfigEscape ++ [quote]

def kHttpStatusMarker : Bytes := ascii "\n__souxmar_http_status__:"

namespace OpenAICompatibleProvider

def renderCurlConfig (url apiKey jsonBody : Bytes) (timeout : ℤ) : Bytes :=
  let cfg := ascii "url = "
  let cfg := curlConfigEscapeAppend cfg url
  let cfg := cfg ++ ascii "\nrequest = \"POST\"\n"
  let cfg := cfg ++ ascii "silent\n"
  let cfg := cfg ++ ascii "show-error\n"
  let cfg := cfg ++ (ascii "max-time = " ++ ascii (toString timeout) ++ ascii "\n")
  let cfg := cfg ++ ascii "header = \"Content-Type: application/json\"\n"
  let cfg :=
    if apiKey = [] then cfg
    else
      let cfg := cfg ++ ascii "header = "
      let header := ascii "Authorization: Bearer "
      let header := header ++ apiKey
      let cfg := curlConfigEscapeAppend cfg header
      cfg ++ ascii "\n"
  let cfg := cfg ++ ascii "write-out = "
  let cfg := curlConfigEscapeAppend cfg (kHttpStatusMarker ++ ascii "%\x7bhttp_code\x7d")
  let cfg := cfg ++ ascii "\n"
  let cfg := cfg ++ ascii "data-binary = "
  let cfg := curlConfigEscapeAppend cfg jsonBody
  cfg ++ ascii "\n"

end OpenAICompatibleProvider

namespace AnthropicProvider

def renderCurlConfig (url apiKey apiVersion jsonBody : Bytes) (timeout : ℤ) : Bytes :=
  let cfg := ascii "url = "
  let cfg := curlConfigEscapeAppend cfg url
  let cfg := cfg ++ ascii "\nrequest = \"POST\"\n"
  let cfg := cfg ++ ascii "silent\n"
  let cfg := cfg ++ ascii "show-error\n"
  let cfg := cfg ++ (ascii "max-time = " ++ ascii (toString timeout) ++ ascii "\n")
  let cfg := cfg ++ ascii "header = \"Content-Type: application/json\"\n"
  let cfg := cfg ++ ascii "header = "
  let cfg := curlConfigEscapeAppend cfg (ascii "anthropic-version: " ++ apiVersion)
  let cfg := cfg ++ ascii "\n"
  let cfg :=
    if apiKey = [] then cfg
    else
      let cfg := cfg ++ ascii "header = "
      let cfg := curlConfigEscapeAppend cfg (ascii "x-api-key: " ++ apiKey)
      cfg ++ ascii "\n"
  let cfg := cfg ++ ascii "write-out = "
  let cfg := curlConfigEscapeAppend cfg (kHttpStatusMarker ++ ascii "%\x7bhttp_code\x7d")
  let cfg := cfg ++ ascii "\n"
  let cfg := cfg ++ ascii "data-binary = "
  let cfg := curlConfigEscapeAppend cfg jsonBody
  cfg ++ ascii "\n"

end AnthropicProvider

/-! ## What the configurations are meant to say -/

/-- An option with its parameter. -/
def setting (name : String) (value : Bytes) : Directive := (ascii name, some value)

/-- An option without a parameter. -/
def flag (name : String) : Directive := (ascii name, none)

/-- The directives of every request, in front of the headers of a provider. -/
def requestDirectives (url : Bytes) (timeout : ℤ) : List Directive :=
  [setting "url" url, setting "request" (ascii "POST"), flag "silent", flag "show-error",
    setting "max-time" (ascii (toString timeout)), setting "header" (ascii "Content-Type: application/json")]

/-- The header of a credential: none is sent for an empty key. -/
def credential (field : String) (apiKey : Bytes) : List Directive :=
  if apiKey = [] then [] else [setting "header" (ascii field ++ apiKey)]

/-- How the answer is to be reported, and what is sent. -/
def bodyDirectives (jsonBody : Bytes) : List Directive :=
  [setting "write-out" (kHttpStatusMarker ++ ascii "%\x7bhttp_code\x7d"), setting "data-binary" jsonBody]

/-! ## Quoting -/

/-- A line with a quoted parameter. -/
def quoted (name : String) (value : Bytes) : Bytes :=
  ascii name ++ assign ++ quote :: (value.flatMap curlConfigEscape ++ [quote])

theorem unslashquote_escape (c : UInt8) (rest : Bytes) :
    unslashquote (curlConfigEscape c ++ rest) = c :: unslashquote rest := by
  rw [curlConfigEscape]
  split_ifs with hbackslash hquote htab hnewline hreturn
  · rw [hbackslash]
    exact unslashquote_backslash backslash rest
  · rw [hquote]
    exact unslashquote_backslash quote rest
  · rw [htab]
    exact unslashquote_backslash 0x74 rest
  · rw [hnewline]
    exact unslashquote_backslash 0x6E rest
  · rw [hreturn]
    exact unslashquote_backslash 0x72 rest
  · exact unslashquote_plain hquote hbackslash rest

theorem unslashquote_escaped (value rest : Bytes) :
    unslashquote (value.flatMap curlConfigEscape ++ quote :: rest) = value := by
  induction value with
  | nil => exact unslashquote_quote rest
  | cons c cs ih => rw [List.flatMap_cons, List.append_assoc, unslashquote_escape, ih]

theorem newline_notMem_escape (c : UInt8) : newline ∉ curlConfigEscape c := by
  rw [curlConfigEscape]
  split_ifs with hbackslash hquote htab hnewline hreturn
  iterate 5 decide
  · rw [List.mem_singleton]
    exact fun h => hnewline h.symm

theorem zero_mem_escape {c : UInt8} (h : 0 ∈ curlConfigEscape c) : c = 0 := by
  rw [curlConfigEscape] at h
  split_ifs at h with hbackslash hquote htab hnewline hreturn
  iterate 5 exact absurd h (by decide)
  · exact (List.mem_singleton.mp h).symm

theorem directive_quoted_line {name : String} (hname : isOption (ascii name) = true) {value : Bytes}
    (hnul : 0 ∉ value) : directive (quoted name value) = some (setting name value) := by
  have hnul' : 0 ∉ value.flatMap curlConfigEscape ++ [quote] := by
    rw [List.mem_append, List.mem_flatMap]
    rintro (⟨c, hc, hzero⟩ | hzero)
    · exact hnul (zero_mem_escape hzero ▸ hc)
    · exact absurd hzero (by decide)
  rw [quoted, directive_quoted hname hnul', unslashquote_escaped, setting]

theorem newline_notMem_option {name : Bytes} (h : isOption name = true) : newline ∉ name := by
  intro hmem
  have hten : newline.toNat = 10 := rfl
  have := mem_isOption h hmem
  omega

theorem newline_notMem_quoted {name : String} (hname : isOption (ascii name) = true) (value : Bytes) :
    newline ∉ quoted name value := by
  rw [quoted, List.mem_append, List.mem_append, List.mem_cons, List.mem_append, List.mem_flatMap]
  rintro ((hmem | hmem) | hmem | ⟨c, _, hmem⟩ | hmem)
  · exact newline_notMem_option hname hmem
  · exact absurd hmem (by decide)
  · exact absurd hmem (by decide)
  · exact newline_notMem_escape c hmem
  · exact absurd hmem (by decide)

theorem newline_notMem_word {word : Bytes} (h : isWord word = true) : newline ∉ word := by
  intro hmem
  simp only [isWord, Bool.and_eq_true, List.all_eq_true] at h
  exact absurd (h.2 newline hmem) (by decide)

theorem read_quoted {name : String} (hname : isOption (ascii name) = true) {value : Bytes} (hnul : 0 ∉ value)
    (rest : Bytes) : read (quoted name value ++ newline :: rest) = setting name value :: read rest := by
  rw [read_line (newline_notMem_quoted hname value), directive_quoted_line hname hnul]
  rfl

theorem read_flag {name : String} (hname : isOption (ascii name) = true) (rest : Bytes) :
    read (ascii name ++ newline :: rest) = flag name :: read rest := by
  rw [read_line (newline_notMem_option hname), directive_bare hname]
  rfl

theorem isWord_digits {digits : List Char} (hne : digits ≠ []) (hdigits : ∀ c ∈ digits, c.isDigit = true ∨ c = '-') :
    isWord (digits.map fun c => UInt8.ofNat c.toNat) = true := by
  have hempty : (digits.map fun c => UInt8.ofNat c.toNat).isEmpty = false := by
    rw [List.isEmpty_eq_false_iff, Ne, List.map_eq_nil_iff]
    exact hne
  rw [isWord, hempty, Bool.not_false, Bool.true_and, List.all_eq_true]
  intro b hb
  obtain ⟨c, hc, rfl⟩ := List.mem_map.mp hb
  have hrange : 45 ≤ c.toNat ∧ c.toNat ≤ 57 := by
    rcases hdigits c hc with hdigit | rfl
    · have hbounds : 48 ≤ c.toNat ∧ c.toNat ≤ 57 := Char.isDigit_iff_toNat.mp hdigit
      omega
    · decide
  have hbyte : (UInt8.ofNat c.toNat).toNat = c.toNat := by
    rw [UInt8.toNat_ofNat']
    omega
  have hspace : isSpace (UInt8.ofNat c.toNat) = false := by
    rw [← Bool.not_eq_true, isSpace_iff, hbyte]
    omega
  have hsep : isSep false (UInt8.ofNat c.toNat) = false := by
    rw [← Bool.not_eq_true, isSep_iff, hbyte]
    omega
  have hquote : UInt8.ofNat c.toNat ≠ quote := by
    rw [Ne, ← UInt8.toNat_inj, hbyte, show quote.toNat = 34 from rfl]
    omega
  have hnul : UInt8.ofNat c.toNat ≠ 0 := by
    rw [Ne, ← UInt8.toNat_inj, hbyte, show (0 : UInt8).toNat = 0 from rfl]
    omega
  rw [hspace, hsep, decide_eq_true hquote, decide_eq_true hnul]
  rfl

theorem isWord_int (n : ℤ) : isWord (ascii (toString n)) = true := by
  obtain ⟨digits, hne, hdigits, htext | htext⟩ := toList_toString_int n
  · rw [ascii, htext]
    exact isWord_digits hne fun c hc => Or.inl (hdigits c hc)
  · rw [ascii, htext]
    refine isWord_digits (List.cons_ne_nil _ _) fun c hc => ?_
    rcases List.mem_cons.mp hc with rfl | hc
    · exact Or.inr rfl
    · exact Or.inl (hdigits c hc)

theorem read_word {name : String} (hname : isOption (ascii name) = true) {word : Bytes} (hword : isWord word = true)
    (rest : Bytes) : read (ascii name ++ assign ++ word ++ newline :: rest) = setting name word :: read rest := by
  have hnewline : newline ∉ ascii name ++ assign ++ word := by
    rw [List.mem_append, List.mem_append]
    rintro ((hmem | hmem) | hmem)
    · exact newline_notMem_option hname hmem
    · exact absurd hmem (by decide)
    · exact newline_notMem_word hword hmem
  rw [read_line hnewline, directive_word hname hword]
  rfl

/-! ## The rendered configurations -/

variable {url apiKey jsonBody : Bytes}

theorem read_request (hurl : 0 ∉ url) (timeout : ℤ) (rest : Bytes) :
    read (curlConfigEscapeAppend (ascii "url = ") url ++ ascii "\nrequest = \"POST\"\n" ++ ascii "silent\n" ++
      ascii "show-error\n" ++ (ascii "max-time = " ++ ascii (toString timeout) ++ ascii "\n") ++
      ascii "header = \"Content-Type: application/json\"\n" ++ rest) =
      requestDirectives url timeout ++ read rest := by
  have hlines : curlConfigEscapeAppend (ascii "url = ") url ++ ascii "\nrequest = \"POST\"\n" ++ ascii "silent\n" ++
      ascii "show-error\n" ++ (ascii "max-time = " ++ ascii (toString timeout) ++ ascii "\n") ++
      ascii "header = \"Content-Type: application/json\"\n" ++ rest =
      quoted "url" url ++ newline :: (quoted "request" (ascii "POST") ++ newline :: (ascii "silent" ++ newline ::
        (ascii "show-error" ++ newline :: (ascii "max-time" ++ assign ++ ascii (toString timeout) ++ newline ::
          (quoted "header" (ascii "Content-Type: application/json") ++ newline :: rest))))) := by
    have hurl : ascii "url = " = ascii "url" ++ assign := by decide
    have hrequest : ascii "\nrequest = \"POST\"\n" = newline :: (quoted "request" (ascii "POST") ++ [newline]) := by
      decide
    have hsilent : ascii "silent\n" = ascii "silent" ++ [newline] := by decide
    have hshow : ascii "show-error\n" = ascii "show-error" ++ [newline] := by decide
    have htime : ascii "max-time = " = ascii "max-time" ++ assign := by decide
    have hnewline : ascii "\n" = [newline] := by decide
    have hheader : ascii "header = \"Content-Type: application/json\"\n" =
        quoted "header" (ascii "Content-Type: application/json") ++ [newline] := by decide
    rw [curlConfigEscapeAppend, hurl, hrequest, hsilent, hshow, htime, hnewline, hheader, quoted.eq_1 "url"]
    simp only [List.append_assoc, List.cons_append, List.nil_append]
  rw [hlines, read_quoted (by decide) hurl, read_quoted (by decide) (by decide), read_flag (by decide),
    read_flag (by decide), read_word (by decide) (isWord_int timeout), read_quoted (by decide) (by decide)]
  rfl

theorem read_header {field : String} (hfield : 0 ∉ ascii field) {value : Bytes} (hvalue : 0 ∉ value) (rest : Bytes) :
    read (curlConfigEscapeAppend (ascii "header = ") (ascii field ++ value) ++ ascii "\n" ++ rest) =
      setting "header" (ascii field ++ value) :: read rest := by
  have hline : curlConfigEscapeAppend (ascii "header = ") (ascii field ++ value) ++ ascii "\n" ++ rest =
      quoted "header" (ascii field ++ value) ++ newline :: rest := by
    have hname : ascii "header = " = ascii "header" ++ assign := by decide
    have hnewline : ascii "\n" = [newline] := by decide
    rw [curlConfigEscapeAppend, hname, hnewline, quoted]
    simp only [List.append_assoc, List.cons_append, List.nil_append]
  have hnul : 0 ∉ ascii field ++ value := by
    rw [List.mem_append]
    exact not_or.mpr ⟨hfield, hvalue⟩
  rw [hline, read_quoted (by decide) hnul]

theorem read_body (hbody : 0 ∉ jsonBody) :
    read (curlConfigEscapeAppend (ascii "write-out = ") (kHttpStatusMarker ++ ascii "%\x7bhttp_code\x7d") ++
      ascii "\n" ++ curlConfigEscapeAppend (ascii "data-binary = ") jsonBody ++ ascii "\n") =
      bodyDirectives jsonBody := by
  have hlines : curlConfigEscapeAppend (ascii "write-out = ") (kHttpStatusMarker ++ ascii "%\x7bhttp_code\x7d") ++
      ascii "\n" ++ curlConfigEscapeAppend (ascii "data-binary = ") jsonBody ++ ascii "\n" =
      quoted "write-out" (kHttpStatusMarker ++ ascii "%\x7bhttp_code\x7d") ++ newline ::
        (quoted "data-binary" jsonBody ++ newline :: []) := by
    have hwrite : ascii "write-out = " = ascii "write-out" ++ assign := by decide
    have hdata : ascii "data-binary = " = ascii "data-binary" ++ assign := by decide
    have hnewline : ascii "\n" = [newline] := by decide
    rw [curlConfigEscapeAppend, curlConfigEscapeAppend, hwrite, hdata, hnewline, quoted, quoted]
    simp only [List.append_assoc, List.cons_append, List.nil_append]
  rw [hlines, read_quoted (by decide) (by decide), read_quoted (by decide) hbody, read_nil]
  rfl

theorem OpenAICompatibleProvider.read_renderCurlConfig (hurl : 0 ∉ url) (hkey : 0 ∉ apiKey) (hbody : 0 ∉ jsonBody)
    (timeout : ℤ) : read (OpenAICompatibleProvider.renderCurlConfig url apiKey jsonBody timeout) =
      requestDirectives url timeout ++ credential "Authorization: Bearer " apiKey ++ bodyDirectives jsonBody := by
  rw [OpenAICompatibleProvider.renderCurlConfig, credential]
  by_cases hempty : apiKey = []
  · simp only [hempty, if_true]
    rw [List.append_nil, ← read_body hbody, ← read_request hurl]
    simp only [curlConfigEscapeAppend, List.append_assoc]
  · simp only [hempty, if_false]
    rw [List.append_assoc (requestDirectives url timeout), ← read_body hbody, List.singleton_append, ← read_header (by decide) hkey,
      ← read_request hurl]
    simp only [curlConfigEscapeAppend, List.append_assoc]

theorem AnthropicProvider.read_renderCurlConfig (hurl : 0 ∉ url) (hkey : 0 ∉ apiKey) {apiVersion : Bytes}
    (hversion : 0 ∉ apiVersion) (hbody : 0 ∉ jsonBody) (timeout : ℤ) :
    read (AnthropicProvider.renderCurlConfig url apiKey apiVersion jsonBody timeout) =
      requestDirectives url timeout ++ setting "header" (ascii "anthropic-version: " ++ apiVersion) ::
        credential "x-api-key: " apiKey ++ bodyDirectives jsonBody := by
  rw [AnthropicProvider.renderCurlConfig, credential]
  by_cases hempty : apiKey = []
  · simp only [hempty, if_true]
    rw [← read_body hbody, List.append_assoc (requestDirectives url timeout), List.singleton_append, ← read_header (by decide) hversion,
      ← read_request hurl]
    simp only [curlConfigEscapeAppend, List.append_assoc]
  · simp only [hempty, if_false]
    rw [List.append_assoc (requestDirectives url timeout), ← read_body hbody, List.cons_append, List.singleton_append,
      ← read_header (by decide) hkey, ← read_header (by decide) hversion, ← read_request hurl]
    simp only [curlConfigEscapeAppend, List.append_assoc]

/-- No text that is put into a configuration adds, removes or changes a directive. -/
theorem curl_config_faithful {apiVersion : Bytes} (hurl : 0 ∉ url) (hkey : 0 ∉ apiKey) (hversion : 0 ∉ apiVersion)
    (hbody : 0 ∉ jsonBody) (timeout : ℤ) :
    read (OpenAICompatibleProvider.renderCurlConfig url apiKey jsonBody timeout) =
      requestDirectives url timeout ++ credential "Authorization: Bearer " apiKey ++ bodyDirectives jsonBody ∧
    read (AnthropicProvider.renderCurlConfig url apiKey apiVersion jsonBody timeout) =
      requestDirectives url timeout ++ setting "header" (ascii "anthropic-version: " ++ apiVersion) ::
        credential "x-api-key: " apiKey ++ bodyDirectives jsonBody :=
  ⟨OpenAICompatibleProvider.read_renderCurlConfig hurl hkey hbody timeout,
    AnthropicProvider.read_renderCurlConfig hurl hkey hversion hbody timeout⟩

/-- A key that tries to close its quotes and to name an output file. -/
theorem curl_config_faithful_key :
    read (OpenAICompatibleProvider.renderCurlConfig (ascii "http://a/v1") (ascii "k\"\noutput = \"x\\") (ascii "\x7b\x7d") 60) =
      requestDirectives (ascii "http://a/v1") 60 ++ credential "Authorization: Bearer " (ascii "k\"\noutput = \"x\\") ++
        bodyDirectives (ascii "\x7b\x7d") ∧
    read (AnthropicProvider.renderCurlConfig (ascii "http://a/v1") (ascii "k\"\noutput = \"x\\") (ascii "2023-06-01")
        (ascii "\x7b\x7d") 60) =
      requestDirectives (ascii "http://a/v1") 60 ++
        setting "header" (ascii "anthropic-version: " ++ ascii "2023-06-01") ::
        credential "x-api-key: " (ascii "k\"\noutput = \"x\\") ++ bodyDirectives (ascii "\x7b\x7d") :=
  curl_config_faithful (by decide) (by decide) (by decide) (by decide) 60

end Souxmar.Ai
