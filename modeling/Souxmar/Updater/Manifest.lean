import Mathlib.Data.Nat.Notation

/-!
# The signed update manifest

The data model of `manifest.h`. A manifest reaches the gate after its signature was verified; the
results about the gate hold of every manifest, verified or not.
-/

namespace Souxmar.Updater

inductive Channel
  | stable
  | beta
  | nightly
deriving DecidableEq, Repr

inductive Os
  | linux
  | macos
  | windows
deriving DecidableEq, Repr

inductive Arch
  | x86_64
  | aarch64
deriving DecidableEq, Repr

def Os.toStr : Os → String
  | .linux => "linux"
  | .macos => "macos"
  | .windows => "windows"

def Arch.toStr : Arch → String
  | .x86_64 => "x86_64"
  | .aarch64 => "aarch64"

/-- One downloadable build; `sha256` and `size` bind it to its bytes. -/
structure Artifact where
  os : Os
  arch : Arch
  url : String
  sha256 : String
  size : ℕ := 0
deriving DecidableEq, Repr

structure SigningBlock where
  algorithm : String
  publicKeyId : String
deriving DecidableEq, Repr

structure ReleaseBlock where
  version : String
  releasedAt : String := ""
  minPreviousVersion : String := ""
  rollbackTarget : String := ""
  notesUrl : String := ""
  mandatory : Bool := false
deriving DecidableEq, Repr

structure ChannelBlock where
  name : Channel := .stable
  expiresAt : String := ""
deriving DecidableEq, Repr

structure Manifest where
  generatedAt : String := ""
  channel : ChannelBlock := {}
  release : ReleaseBlock
  artifacts : List Artifact
  signing : SigningBlock
deriving DecidableEq, Repr

end Souxmar.Updater
