import Mathlib.Data.Int.Notation
import Mathlib.Tactic.SplitIfs
import Souxmar.Updater.FileWrite

/-!
# Downloading to a file

`fetch_to_file` of `fetcher.cpp`. curl writes the temporary, as a child process; how it ends and what it
leaves behind is given, and so is which of the file operations after it fail.
-/

namespace Souxmar.Updater

inductive FetchErrorKind
  | httpClientFailed
  | networkUnreachable
  | notFound
  | serverError
  | payloadTooLarge
  | badUrl
  | localIoFailed
deriving DecidableEq, Repr

structure FetchError where
  kind : FetchErrorKind
  message : String
  httpStatus : ℤ := 0
deriving DecidableEq, Repr

structure FetchedFile where
  path : String
  size : ℕ
deriving DecidableEq, Repr

structure FetcherOptions where
  timeout : ℕ := 600
  maxBytes : ℕ := 2 * 1024 * 1024 * 1024
  requireHttps : Bool := true
deriving DecidableEq, Repr

def looksLikeHttpsUrl (url : String) : Bool :=
  "https://".toList.isPrefixOf url.toList &&
    match url.toList.drop 8 with
    | [] => false
    | c :: _ => c != '/'

def clientFailed (msg : String) : FetchError := { kind := .httpClientFailed, message := msg }

def networkUnreachable (msg : String) (exitCode : ℤ) : FetchError :=
  { kind := .networkUnreachable, message := msg ++ " (curl exit " ++ toString exitCode ++ ")" }

/-- How the child ends. -/
inductive CurlEnd
  | notSpawned
  | exited (code : ℤ)
  | killed (signal : ℕ)
  | timedOut
deriving DecidableEq, Repr

structure CurlOutcome where
  spawnOk : Bool
  timedOut : Bool
  exitCode : ℤ
  stderrBytes : String
deriving DecidableEq, Repr

/-- `run_curl`. A child that a signal ends has no exit code: the field keeps its initial value, and the
signal is not passed on. -/
def CurlEnd.outcome (stderrBytes : String) : CurlEnd → CurlOutcome
  | notSpawned => ⟨false, false, 0, ""⟩
  | exited code => ⟨true, false, code, stderrBytes⟩
  | killed _ => ⟨true, false, 0, stderrBytes⟩
  | timedOut => ⟨true, true, 0, stderrBytes⟩

/-- What happens outside of `fetch_to_file`: the content at the address, what curl makes of it, and the faults
of the steps that follow. -/
structure Download where
  createDir : Bool := false
  body : List UInt8
  ending : CurlEnd := .exited 0
  stderrBytes : String := ""
  /-- The temporary that curl leaves behind. -/
  temporary : Option (List UInt8)
  fileSize : Bool := false
  rename : Bool := false
  copy : CopyFault := .done
  removeTmp : Bool := false
deriving DecidableEq, Repr

def localIoFailed (message : String) : FetchError := { kind := .localIoFailed, message := message }

/-- The branch of a run that ended with exit code 0. -/
def placeDownload (d : Download) (dest : String) (old : Option (List UInt8)) :
    Except FetchError FetchedFile × Option (List UInt8) :=
  match d.temporary with
  | none => (.error (localIoFailed "downloaded file is empty"), old)
  | some bytes =>
    if d.fileSize ∨ bytes.length = 0 then (.error (localIoFailed "downloaded file is empty"), old)
    else if d.rename then
      -- as in `writeTmpRename`, the error code tested is that of `fs::remove`
      if d.removeTmp then
        (.error (localIoFailed "rename/copy to dest failed"), copyFile d.copy old bytes)
      else (.ok ⟨dest, bytes.length⟩, copyFile d.copy old bytes)
    else (.ok ⟨dest, bytes.length⟩, some bytes)

/-- `parent` is `dest.parent_path()`. -/
def fetchToFile (opts : FetcherOptions) (url parent dest : String) (d : Download)
    (old : Option (List UInt8)) : Except FetchError FetchedFile × Option (List UInt8) :=
  if opts.requireHttps && !looksLikeHttpsUrl url then
    (.error { kind := .badUrl, message := "fetcher: refusing non-https URL '" ++ url ++ "'" }, old)
  else if d.createDir then
    (.error (localIoFailed ("cannot create dest directory " ++ parent)), old)
  else
    let r := d.ending.outcome d.stderrBytes
    if !r.spawnOk then (.error (clientFailed ("curl spawn failed: " ++ r.stderrBytes)), old)
    else if r.timedOut then
      (.error { kind := .networkUnreachable
                message := "curl timed out after " ++ toString opts.timeout ++ "s" }, old)
    else if r.exitCode = 0 then placeDownload d dest old
    else if r.exitCode = 6 ∨ r.exitCode = 7 then
      (.error (networkUnreachable ("curl could not reach " ++ url) r.exitCode), old)
    else if r.exitCode = 22 then
      (.error { kind := .notFound, message := "HTTP 4xx from " ++ url }, old)
    else if r.exitCode = 28 then
      (.error { kind := .networkUnreachable, message := "curl operation timeout (exit 28)" }, old)
    else if r.exitCode = 60 then
      (.error { kind := .badUrl, message := "curl SSL cert problem: " ++ r.stderrBytes }, old)
    else if r.exitCode = 63 then
      (.error { kind := .payloadTooLarge
                message := "response exceeded max_bytes (" ++ toString opts.maxBytes ++ ")" }, old)
    else
      (.error (clientFailed ("curl exit " ++ toString r.exitCode ++ ": " ++ r.stderrBytes)), old)

/-- The bytes of the temporary are put in place. -/
structure Download.Places (d : Download) (bytes : List UInt8) : Prop where
  temporary : d.temporary = some bytes
  fileSize : d.fileSize = false
  nonempty : bytes ≠ []
  reported : d.rename = true → d.removeTmp = false

/-- `fetch_to_file` gets as far as putting the temporary in place. -/
structure Download.Arrives (opts : FetcherOptions) (url : String) (d : Download) : Prop where
  https : opts.requireHttps = true → looksLikeHttpsUrl url = true
  createDir : d.createDir = false
  ending : d.ending = .exited 0 ∨ ∃ signal, d.ending = .killed signal

section

variable {d : Download} {dest : String} {old file : Option (List UInt8)} {got : FetchedFile}

theorem placeDownload_ok_iff : placeDownload d dest old = (.ok got, file) ↔
    ∃ bytes, d.Places bytes ∧ got = ⟨dest, bytes.length⟩ ∧
      file = if d.rename then copyFile d.copy old bytes else some bytes := by
  unfold placeDownload
  cases htemporary : d.temporary with
  | none =>
    refine ⟨(fun h => nomatch h), ?_⟩
    rintro ⟨bytes, hplaces, -⟩
    rw [hplaces.temporary] at htemporary
    exact nomatch htemporary
  | some bytes =>
    have hsame : ∀ {bytes' : List UInt8}, d.Places bytes' → bytes' = bytes := fun hplaces =>
      Option.some.inj (hplaces.temporary.symm.trans htemporary)
    dsimp only
    by_cases hsize : d.fileSize = true ∨ bytes.length = 0
    · rw [if_pos hsize]
      refine ⟨(fun h => nomatch h), ?_⟩
      rintro ⟨bytes', hplaces, -⟩
      obtain rfl := hsame hplaces
      rcases hsize with hsize | hsize
      · rw [hplaces.fileSize] at hsize
        exact nomatch hsize
      · exact absurd (List.eq_nil_of_length_eq_zero hsize) hplaces.nonempty
    · rw [if_neg hsize]
      obtain ⟨hsize, hlength⟩ := not_or.mp hsize
      have hsize : d.fileSize = false := Bool.eq_false_iff.mpr hsize
      have hnonempty : bytes ≠ [] := fun hnil => hlength (by rw [hnil]; rfl)
      cases hrename : d.rename with
      | false =>
        have hplaces : d.Places bytes := ⟨htemporary, hsize, hnonempty, by rw [hrename]; exact nofun⟩
        constructor
        · intro h
          obtain ⟨hgot, rfl⟩ := Prod.mk.inj h
          exact ⟨bytes, hplaces, (Except.ok.inj hgot).symm, rfl⟩
        · rintro ⟨bytes', hplaces', rfl, rfl⟩
          obtain rfl := hsame hplaces'
          rfl
      | true =>
        cases hremove : d.removeTmp with
        | false =>
          have hplaces : d.Places bytes := ⟨htemporary, hsize, hnonempty, fun _ => hremove⟩
          constructor
          · intro h
            obtain ⟨hgot, rfl⟩ := Prod.mk.inj h
            exact ⟨bytes, hplaces, (Except.ok.inj hgot).symm, rfl⟩
          · rintro ⟨bytes', hplaces', rfl, rfl⟩
            obtain rfl := hsame hplaces'
            rfl
        | true =>
          refine ⟨(fun h => nomatch h), ?_⟩
          rintro ⟨bytes', hplaces, -⟩
          have hreported := hplaces.reported hrename
          rw [hremove] at hreported
          exact nomatch hreported

theorem fetchToFile_arrives {opts : FetcherOptions} {url : String} (h : d.Arrives opts url) (parent : String) :
    fetchToFile opts url parent dest d old = placeDownload d dest old := by
  have hhttps : (opts.requireHttps && !looksLikeHttpsUrl url) = false := by
    cases hrequire : opts.requireHttps with
    | false => rfl
    | true => rw [h.https hrequire]; rfl
  unfold fetchToFile
  rw [hhttps, h.createDir]
  rcases h.ending with hending | ⟨signal, hending⟩ <;> rw [hending] <;> rfl

theorem fetchToFile_not_arrives {opts : FetcherOptions} {url : String} (h : ¬d.Arrives opts url)
    (parent : String) : ∃ e, fetchToFile opts url parent dest d old = (.error e, old) := by
  unfold fetchToFile
  by_cases hhttps : (opts.requireHttps && !looksLikeHttpsUrl url) = true
  · rw [if_pos hhttps]
    exact ⟨_, rfl⟩
  by_cases hdir : d.createDir = true
  · rw [if_neg hhttps, if_pos hdir]
    exact ⟨_, rfl⟩
  have hurl : opts.requireHttps = true → looksLikeHttpsUrl url = true := by
    intro hrequire
    rw [hrequire, Bool.true_and, Bool.not_eq_true'] at hhttps
    exact Bool.not_eq_false _ |>.mp hhttps
  have hdir' : d.createDir = false := Bool.eq_false_iff.mpr hdir
  rw [if_neg hhttps, if_neg hdir]
  cases hending : d.ending with
  | notSpawned => exact ⟨_, rfl⟩
  | timedOut => exact ⟨_, rfl⟩
  | killed signal => exact absurd ⟨hurl, hdir', Or.inr ⟨signal, hending⟩⟩ h
  | exited code =>
    have hzero : code ≠ 0 := by
      rintro rfl
      exact h ⟨hurl, hdir', Or.inl hending⟩
    dsimp only [CurlEnd.outcome]
    rw [if_neg (by decide), if_neg (by decide), if_neg hzero]
    split_ifs <;> exact ⟨_, rfl⟩

end

end Souxmar.Updater
