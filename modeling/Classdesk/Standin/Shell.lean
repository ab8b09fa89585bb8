import Classdesk.Tools.Program

/-!
# Programs to run without a machine

Nothing here is part of the program. Where patchers and decompilers are to be tried out, these
are the programs there are: a few utilities, as functions of their arguments, their input and
the files they can see, and scripts that are made of them.

A script is a list of commands, one a line. Words are separated by spaces; quotes keep
spaces, and in single quotes everything stands for itself. `$1` and so on are the
arguments of the script and `$$` is its own process. A command may take a file as its
input with `<` and send its output to the diagnostics with `>&2`.
-/

namespace Classdesk

/-! ## Runs -/

namespace Tools.Run

/-- A run that ended with a code and wrote nothing. -/
def silent (code : Nat) : Run := ⟨.code code, [], []⟩

/-- A run that ended well. -/
def writing (output : Bytes) : Run := ⟨.code 0, output, []⟩

/-- A run that ended with a code and a message. -/
def failing (code : Nat) (message : String) : Run :=
  ⟨.code code, [], Text.Utf8.encode (message ++ "\n")⟩

/-- A run after another one: what they wrote together, and how the later one ended. -/
def andThen (first second : Run) : Run :=
  ⟨second.status, first.output ++ second.output, first.diagnostics ++ second.diagnostics⟩

/-- A run with its output among the diagnostics. -/
def outputToDiagnostics (r : Run) : Run := ⟨r.status, [], r.diagnostics ++ r.output⟩

/-- Runs one after the other. The whole fails with the code of the last one that did. -/
def all (runs : List Run) : Run :=
  runs.foldl (fun done r =>
    let joined := done.andThen r
    if r.status.isSuccess then { joined with status := done.status } else joined) (.silent 0)

end Tools.Run

namespace Standin

open Tools

/-! ## Utilities -/

/-- The explanation of a fault that utilities give: its wording without the number. -/
def explanation : FileFault → String
  | .notFound => "No such file or directory"
  | .noPermission => "Permission denied"
  | .alreadyExists => "File exists"
  | .notDirectory => "Not a directory"
  | .isDirectory => "Is a directory"
  | .notProgram => "Exec format error"

/-- The content of a file given to a utility, worked on by it. -/
def onFile (files : FileTree) (complaint : String) (code : Nat) (work : Bytes → Run)
    (path : String) : Run :=
  match files.contentAt ⟨path⟩ with
  | .ok content => work content
  | .error fault => .failing code s!"{complaint} {path}: {explanation fault}"

/-- Put files, or the input if there are none, one behind the other. -/
def concatenate (files : FileTree) (input : Bytes) (paths : List String) : Run :=
  if paths.isEmpty then .writing input
  else .all (paths.map (onFile files "cat:" 1 .writing))

/-- The value of up to three octal digits, and what follows. -/
def octal : (digits value : Nat) → List Char → Nat × List Char
  | digits + 1, value, c :: cs =>
    if '0' ≤ c && c ≤ '7' then octal digits (value * 8 + (c.toNat - 48)) cs else (value, c :: cs)
  | _, value, cs => (value, cs)

/-- The bytes of a format: `\n`, `\t`, `\r` and `\\` stand for single characters, a
backslash with octal digits for a byte, and `%%` for one percent sign. Each character
takes one unit of fuel at most. -/
def formatted : (fuel : Nat) → List Char → Bytes
  | 0, _ => []
  | _, [] => []
  | fuel + 1, '%' :: '%' :: cs => 37 :: formatted fuel cs
  | fuel + 1, '\\' :: c :: cs =>
    match c with
    | 'n' => 10 :: formatted fuel cs
    | 't' => 9 :: formatted fuel cs
    | 'r' => 13 :: formatted fuel cs
    | '\\' => 92 :: formatted fuel cs
    | c =>
      if '0' ≤ c && c ≤ '7' then
        let (value, rest) := octal 3 0 (c :: cs)
        UInt8.ofNat value :: formatted fuel rest
      else 92 :: (String.utf8EncodeChar c ++ formatted fuel cs)
  | fuel + 1, c :: cs => String.utf8EncodeChar c ++ formatted fuel cs

/-- Bytes cut behind every line feed. -/
def byteLines : Bytes → List Bytes
  | [] => []
  | b :: bs =>
    if b = 10 then [b] :: byteLines bs
    else
      match byteLines bs with
      | [] => [[b]]
      | line :: lines => (b :: line) :: lines

/-- Bytes with occurrences of some bytes replaced by others: all of them, or the first
one. Bytes that are part of a replaced occurrence are skipped. -/
def substitute (everywhere : Bool) (old new : Bytes) : (skip : Nat) → Bytes → Bytes
  | _, [] => []
  | skip + 1, _ :: bs => substitute everywhere old new skip bs
  | 0, b :: bs =>
    if !old.isEmpty && old.isPrefixOf (b :: bs) then
      if everywhere then new ++ substitute everywhere old new (old.length - 1) bs
      else new ++ bs.drop (old.length - 1)
    else b :: substitute everywhere old new 0 bs

/-- Carry out a command such as `s/a/b/` on every line. The text to be replaced stands
for itself. -/
def editLines (files : FileTree) (input : Bytes) (command : String) (paths : List String) : Run :=
  match Text.splitOn '/' command.toList with
  | [['s'], old, new, ending] =>
    let bytes (cs : List Char) := Text.Utf8.encode (String.ofList cs)
    let work (content : Bytes) : Run :=
      .writing ((byteLines content).flatMap
        (substitute (ending == ['g']) (bytes old) (bytes new) 0))
    if paths.isEmpty then work input
    else .all (paths.map (onFile files "sed: can't read" 2 work))
  | _ => .failing 1 s!"sed: -e expression #1, char 1: unknown command: {command}"

/-- Tell how many bytes files have, or the input. -/
def countBytes (files : FileTree) (input : Bytes) (paths : List String) : Run :=
  let told (ending : String) (content : Bytes) : Run :=
    .writing (Text.Utf8.encode (s!"{content.length}{ending}\n"))
  if paths.isEmpty then told "" input
  else .all (paths.map fun path => onFile files "wc:" 1 (told s!" {path}") path)

/-- The utility with a name, if there is one. -/
def utility? (files : FileTree) (input : Bytes) : (words : List String) → Option Run
  | "true" :: _ => some (.silent 0)
  | "false" :: _ => some (.silent 1)
  | "cat" :: paths => some (concatenate files input paths)
  | "echo" :: words => some (.writing (Text.Utf8.encode (" ".intercalate words ++ "\n")))
  | "printf" :: format :: _ =>
    some (.writing (formatted (format.length + 1) format.toList))
  | "sed" :: command :: paths => some (editLines files input command paths)
  | "wc" :: "-c" :: paths => some (countBytes files input paths)
  | _ => none

/-! ## Scripts -/

/-- A part of a command. -/
inductive Token
  | word (text : String)
  /-- The next word is the file to read from. -/
  | input
  /-- The output goes to the diagnostics. -/
  | toDiagnostics
  deriving DecidableEq, Repr

/-- Which quotes are open. -/
inductive Quote
  | unquoted | single | double
  deriving DecidableEq, Repr

/-- How a script's own process is written. -/
def ownProcess : String := "1"

/-- The value of `$c`. -/
def valueOf? (arguments : List String) (c : Char) : Option String :=
  if c = '$' then some ownProcess
  else if '1' ≤ c && c ≤ '9' then some ((arguments[c.toNat - 49]?).getD "")
  else none

/-- The word that was being read, if one was; it is kept backwards. -/
def finished : Option (List Char) → List Token
  | some chars => [.word (String.ofList chars.reverse)]
  | none => []

/-- The tokens of a line, with the open quote and the word that is being read. -/
def tokens (arguments : List String) : Quote → Option (List Char) → List Char → List Token
  | _, word, [] => finished word
  | .single, word, c :: cs =>
    if c = '\'' then tokens arguments .unquoted word cs
    else tokens arguments .single (some (c :: word.getD [])) cs
  | quote, word, '$' :: c :: cs =>
    match valueOf? arguments c with
    | some value => tokens arguments quote (some (value.toList.reverse ++ word.getD [])) cs
    | none => tokens arguments quote (some (c :: '$' :: word.getD [])) cs
  | .double, word, c :: cs =>
    if c = '"' then tokens arguments .unquoted word cs
    else tokens arguments .double (some (c :: word.getD [])) cs
  | .unquoted, none, '#' :: _ => []
  | .unquoted, word, '>' :: '&' :: '2' :: cs =>
    finished word ++ .toDiagnostics :: tokens arguments .unquoted none cs
  | .unquoted, word, c :: cs =>
    match c with
    | '\'' => tokens arguments .single (some (word.getD [])) cs
    | '"' => tokens arguments .double (some (word.getD [])) cs
    | ' ' | '\t' => finished word ++ tokens arguments .unquoted none cs
    | '<' => finished word ++ .input :: tokens arguments .unquoted none cs
    | c => tokens arguments .unquoted (some (c :: word.getD [])) cs

/-- A command of a script. -/
structure ScriptCommand where
  words : List String
  input : Option String
  toDiagnostics : Bool

/-- The command that some tokens make up. -/
def ScriptCommand.ofTokens : List Token → ScriptCommand
  | [] => ⟨[], none, false⟩
  | .input :: .word path :: rest => { ofTokens rest with input := some path }
  | .input :: rest => ofTokens rest
  | .toDiagnostics :: rest => { ofTokens rest with toDiagnostics := true }
  | .word text :: rest =>
    let command := ofTokens rest
    { command with words := text :: command.words }

/-- What is to happen behind a command. -/
inductive Progress
  | next (run : Run)
  | over (run : Run)

/-- Carry out a command. `last` is the code of the one before it. -/
def ScriptCommand.run (files : FileTree) (place : String) (last : Run) (c : ScriptCommand) :
    Progress :=
  match c.words with
  | [] => .next last
  | [":"] => .next (last.andThen (.silent 0))
  | ["exit"] => .over last
  | ["exit", code] => .over (last.andThen (.silent (code.toNat?.getD 2 % 256)))
  | ["kill", signal, process] =>
    match (signal.toInt?).map Int.natAbs with
    | some n =>
      if process = ownProcess then .over { last with status := .signal n }
      else .next (last.andThen (.failing 1 s!"{place}: kill: No such process"))
    | none => .next (last.andThen (.failing 2 s!"{place}: kill: invalid signal"))
  | words =>
    let run :=
      match c.input.map fun path => (path, files.contentAt ⟨path⟩) with
      | some (path, .error _) => Run.failing 2 s!"{place}: cannot open {path}: No such file"
      | some (_, .ok content) => (utility? files content words).getD (missing words)
      | none => (utility? files [] words).getD (missing words)
    .next (last.andThen (if c.toDiagnostics then run.outputToDiagnostics else run))
where
  /-- The run of a command that nothing is known of. -/
  missing (words : List String) : Run :=
    let name := words.headD ""
    .failing 127 s!"{place}: {name}: not found"

/-- Carry out the lines of a script, which are numbered. -/
def runLines (files : FileTree) (name : String) (arguments : List String) :
    (number : Nat) → Run → List (List Char) → Run
  | _, done, [] => done
  | number, done, line :: lines =>
    let command := ScriptCommand.ofTokens (tokens arguments .unquoted none line)
    match command.run files s!"{name}: {number}" done with
    | .next done => runLines files name arguments (number + 1) done lines
    | .over done => done

/-- The run of a script. -/
def runScript (files : FileTree) (name : String) (arguments : List String) (text : String) : Run :=
  runLines files name arguments 1 (.silent 0) (Text.splitOn '\n' text.toList)

/-- Run a program: a utility, or a script when its name has a slash in it. -/
def launch : Launcher := fun p files arguments =>
  if p.name.toList.contains '/' then do
    match ← files.open? ⟨p.name⟩ with
    | .directory => .error .noPermission
    | .file content executable =>
      let text := Text.Utf8.decodeLossy content
      if !executable then .error .noPermission
      else if "#!".toList.isPrefixOf text.toList then .ok (runScript files p.name arguments text)
      else .error .notProgram
  else
    match utility? files [] (p.name :: arguments) with
    | some run => .ok run
    | none => .error .notFound

end Standin

end Classdesk
