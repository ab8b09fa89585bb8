import Classdesk.Editor.Session
import Classdesk.Text.Hex

/-!
# Patches on bytes

Nothing here is part of the program, which takes any patcher and decompiler. The plainest
patches say what happens to the bytes of a class, one command a line:

* `bytes H` replaces all of them, and `append H` adds some, with `H` in hexadecimal;
* `replace A B` puts the text `B` in place of the first `A`, which must be as long;
* `fail M` gives up with a message, and `diagnose D` gives up with diagnostics.

The patch fails at the first command that cannot be carried out. Beside the patcher
there are decompilers that only tell how large a class is.
-/

namespace Classdesk.Standin.BytePatch

open Editor

/-- A text without white space at both ends. -/
def trim (text : List Char) : List Char :=
  ((text.dropWhile Text.isWhite).reverse.dropWhile Text.isWhite).reverse

/-- A text up to its first space, and what follows that, if there is one. -/
def cut (text : List Char) : List Char × Option (List Char) :=
  match text.dropWhile (· ≠ ' ') with
  | [] => (text, none)
  | _ :: rest => (text.takeWhile (· ≠ ' '), some rest)

/-- Bytes with the first occurrence of some bytes replaced by others. -/
def replaceFirst? (old new : Bytes) : Bytes → Option Bytes
  | [] => if old.isEmpty then some new else none
  | b :: bs =>
    if old.isPrefixOf (b :: bs) then some (new ++ (b :: bs).drop old.length)
    else (replaceFirst? old new bs).map (b :: ·)

/-- Carry out the command of a line. -/
def command (line : List Char) (bytes : Bytes) : Except PatchFailure Bytes :=
  let (word, rest) := cut line
  let rest := rest.getD []
  match String.ofList word with
  | "" => .ok bytes
  | "bytes" =>
    match Text.Hex.decodeChars? rest with
    | some given => .ok given
    | none => .error ⟨"bad bytes", ""⟩
  | "append" =>
    match Text.Hex.decodeChars? rest with
    | some given => .ok (bytes ++ given)
    | none => .error ⟨"bad append", ""⟩
  | "replace" =>
    match cut rest with
    | (_, none) => .error ⟨"bad replace", ""⟩
    | (old, some new) =>
      let old := Text.Utf8.encode (String.ofList old)
      let new := Text.Utf8.encode (String.ofList new)
      match replaceFirst? old new bytes with
      | some replaced =>
        if old.length = new.length then .ok replaced
        else .error ⟨"bad replace", String.ofList line⟩
      | none => .error ⟨"bad replace", String.ofList line⟩
  | "fail" => .error ⟨String.ofList rest, ""⟩
  | "diagnose" => .error ⟨"diagnosed", String.ofList rest ++ "\n  more\n\n"⟩
  | word => .error ⟨"unknown command", word⟩

/-- Carry out the commands of a patch, in order. -/
def patcher : Patcher := fun bytes patch =>
  (Text.splitOn '\n' patch.toList).foldlM (fun bytes line => command (trim line) bytes) bytes

/-- The decompiler that tells the size of a class. -/
def sizeNote : Decompiler := fun bytes => .ok s!"// {bytes.length} bytes"

/-- The same for classes of even size only. -/
def evenSizeNote : Decompiler := fun bytes =>
  if bytes.length % 2 = 0 then sizeNote bytes else .error ⟨s!"{bytes.length} is odd"⟩

end Classdesk.Standin.BytePatch
