import Mathlib.Data.Nat.Notation

/-!
# Writing a file through a temporary

`write_marker_atomic`, `append_rollback_event` and `save_update_state` all end in the same steps:
write `<path>.tmp.<rand>`, rename it over the target, and, when the rename is refused, copy it over
the target and remove it. `writeTmpRename` is these steps with a fault for each of them; a file is
its text, `none` when it is missing.

Two slips are kept. The stream is tested before its destructor writes out what it still buffers, so
a failure there goes unseen; and `fs::remove(tmp, ec)` overwrites the error code of
`fs::copy_file`, so what is reported is whether the temporary could be removed.
-/

namespace Souxmar.Updater

/-- The text of a file. -/
abbrev FileText : Type := List Char

/-- How `fs::copy_file` ends: done, failed before it touched the target, or failed after it had
written a prefix of the new text. -/
inductive CopyFault
  | done
  | untouched
  | cut (n : ℕ)
deriving DecidableEq, Repr

/-- Which steps of one write fail. -/
structure WriteFaults where
  openTmp : Bool := false
  write : Bool := false
  /-- How much reaches the temporary when the last flush fails, in the destructor of the stream. -/
  flush : Option ℕ := none
  rename : Bool := false
  copy : CopyFault := .done
  removeTmp : Bool := false
deriving DecidableEq, Repr

/-- What the target holds after `fs::copy_file`. -/
def copyFile {α : Type} (f : CopyFault) (old : Option (List α)) (content : List α) : Option (List α) :=
  match f with
  | .done => some content
  | .untouched => old
  | .cut n => some (content.take n)

/-- What the temporary holds once its stream is closed. -/
def WriteFaults.written (f : WriteFaults) (content : FileText) : FileText :=
  match f.flush with
  | none => content
  | some n => content.take n

/-- The result reported, and the target afterwards. -/
def writeTmpRename (f : WriteFaults) (old : Option FileText) (content : FileText) :
    Bool × Option FileText :=
  if f.openTmp then (false, old)
  else if f.write then (false, old)
  else if f.rename then
    -- the verdict is that of `fs::remove`, not that of `fs::copy_file`
    (!f.removeTmp, copyFile f.copy old (f.written content))
  else (true, some (f.written content))

@[simp] theorem writeTmpRename_ok (old : Option FileText) (content : FileText) :
    writeTmpRename {} old content = (true, some content) := rfl

/-- The write reports success. -/
def WriteFaults.reports (f : WriteFaults) : Bool :=
  !f.openTmp && !f.write && !(f.rename && f.removeTmp)

theorem writeTmpRename_fst (f : WriteFaults) (old : Option FileText) (content : FileText) :
    (writeTmpRename f old content).1 = f.reports := by
  unfold writeTmpRename WriteFaults.reports
  cases f.openTmp <;> cases f.write <;> cases f.rename <;> simp

/-- The write leaves the target as it was: it failed before the rename, or what it put in place is
the old text again. -/
def WriteFaults.Leaves (f : WriteFaults) (old : Option FileText) (content : FileText) : Prop :=
  f.openTmp = true ∨ f.write = true ∨
    (if f.rename then copyFile f.copy old (f.written content) else some (f.written content)) = old

theorem writeTmpRename_snd (f : WriteFaults) (old : Option FileText) (content : FileText) :
    (writeTmpRename f old content).2 = old ↔ f.Leaves old content := by
  unfold writeTmpRename WriteFaults.Leaves
  cases f.openTmp <;> cases f.write <;> cases f.rename <;> simp

end Souxmar.Updater
