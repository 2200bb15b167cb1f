import Rhoudveine.Shell.ResolvePath
import Rhoudveine.Core.Numerals

/-!
# The init shell

The loop of `main` in `init/main.c`: the line that is typed, and the command that it is, over the
files of ramfs.
-/

namespace Rhoudveine.Shell
open Fs Rhoudveine.Core

variable (answers : ℕ → UInt64)

/-! ## The line -/

/-- One character at the prompt; `none` if it ends the line.  `try_getchar` returns a signed `char`,
so a character above 0x7F is passed over like no input. -/
def typeChar (buf : Str) (c : UInt8) : Option Str :=
  if c = 0 ∨ c ≥ 0x80 then some buf
  else if c = 0x0D ∨ c = 0x0A then none
  else if c = 0x08 ∨ c = 127 then some buf.dropLast
  else if buf.length < 127 then some (buf ++ [c])
  else some buf

/-- The lines that the characters make, when `buf` is already typed.  What is typed last is no line
before it is ended. -/
def typedLines : (buf : Str) → List UInt8 → List Str
  | _, [] => []
  | buf, c :: keys =>
    match typeChar buf c with
    | none => buf :: typedLines [] keys
    | some buf => typedLines buf keys

/-! ## The commands -/

structure Session where
  gCwd : Str
  vfs : Vfs

/-- What a command meets outside the files: the stack below `resolve_path`, the clock, the disk,
and whether the calls to ACPI come back. -/
structure Machine where
  stack : ℕ → UInt8
  uptimeMs : UInt64
  ahciInitialized : Bool
  readSector : UInt64 → Option (ℕ → UInt8)
  acpiReturns : Bool

/-- How a line ends. -/
inductive Turn (σ : Type)
  | goesOn (text : Str) (s : σ)
  | panics (reason : Str)
  | off (text : Str)

/-- The commands that use the files. -/
inductive FileCommand
  | write (filename text : Str)
  | mkdir (path : Str)
  | cdl (path : Str)
  | dump (path : Str)
  | cd (target : Str)
  deriving DecidableEq, Repr

inductive Command
  | nothing
  | help
  | uptime
  | shutdown
  | file (c : FileCommand)
  | diskread (p : Str)
  | reboot
  | panic (reason : Str)
  | echo (p : Str)
  | unknown
  deriving DecidableEq, Repr

def newline : Str := [0x0A]

def helpText : Str :=
  str "Available commands:\n" ++ str "  help      - show this message\n" ++
    str "  echo ...  - echo text\n" ++ str "  cdl [path]- list directory contents\n" ++
    str "  dump <f>  - display file contents\n" ++
    str "  write <file> <text> - write text to file\n" ++
    str "  mkdir <dir> - create directory\n" ++ str "  cd <path> - change directory\n" ++
    str "  uptime    - show system uptime\n" ++ str "  diskread <lba> - read sector from disk\n" ++
    str "  shutdown  - ACPI shutdown\n" ++ str "  reboot    - ACPI reboot\n"

/-- One of `hour_str`, `min_str` and `sec_str`. -/
def uptimeNumber (n : UInt64) : Option Str :=
  (if n = 0 then some [0x30] else intToStrLoop 64 n).map reverse

def uptime (ms : UInt64) : Option Str :=
  let seconds := ms / 1000
  let minutes := seconds / 60
  let hours := minutes / 60
  (uptimeNumber hours).bind fun hourStr => (uptimeNumber (minutes % 60)).bind fun minStr =>
    (uptimeNumber (seconds % 60)).map fun secStr =>
      str "Uptime: " ++ hourStr ++ str "h " ++ minStr ++ str "m " ++ secStr ++ str "s\n"

/-- The decimal digits at the head of the argument of `diskread`. -/
def parseLba (p : Str) : UInt64 :=
  (p.takeWhile fun c => 0x30 ≤ c ∧ c ≤ 0x39).foldl (fun lba c => lba * 10 + (c - 0x30).toUInt64) 0

def hexDigit (d : UInt8) : UInt8 := if d < 10 then 0x30 + d else 0x41 + d - 10

def diskread (m : Machine) (p : Str) : Str :=
  if ¬ m.ahciInitialized then str "AHCI not initialized\n"
  else
    match m.readSector (parseLba p) with
    | none => str "Read failed!\n"
    | some sector =>
      str "Read successful! First 16 bytes dump:\n" ++
        ((List.range 16).flatMap fun i =>
          [hexDigit (sector i >>> 4), hexDigit (sector i &&& 0xF), 0x20]) ++ newline

/-- The argument of `write` as far as the space, and what stands behind it. -/
def splitWrite (p : Str) : Str × Str :=
  let filename := (p.takeWhile (· ≠ 0x20)).take 127
  let p := p.drop filename.length
  (filename, if p.head? = some 0x20 then p.tail else p)

/-- `O_CREAT | O_WRONLY`. -/
def writeFlags : UInt32 := 0x0101

def writeFailed (absPath : Str) : Str :=
  str "Failed to open file for writing: " ++ absPath ++ newline

def wroteText (absPath : Str) : Str := str "Wrote bytes to " ++ absPath ++ newline

def write (stack : ℕ → UInt8) (s : Session) (filename text : Str) : Option (Str × Session) :=
  let absPath := (resolvePath stack s.gCwd filename).dest
  (vfsOpen s.vfs absPath writeFlags).bind fun opened =>
    if opened.1 < 0 then
      some (writeFailed absPath, { s with vfs := opened.2 })
    else
      (vfsWrite answers opened.2 opened.1 (fun i => text.getD i 0) (UInt64.ofNat text.length)).bind
        fun wrote =>
          (vfsWrite answers wrote.2 opened.1 (fun i => newline.getD i 0) 1).map fun wrote =>
            (wroteText absPath, { s with vfs := (vfsClose wrote.2 opened.1).2 })

/-- What `mkdir` prints. -/
def mkdirText (made : Bool) : Str :=
  if made then str "Directory created\n" else str "Failed to create directory\n"

def mkdir (stack : ℕ → UInt8) (s : Session) (path : Str) : Option (Str × Session) :=
  (vfsMkdir s.vfs (resolvePath stack s.gCwd path).dest).map fun out =>
    (mkdirText (out.1 = 0), { s with vfs := out.2 })

/-- The line for an entry of a directory. -/
def entryLine (entry : Dirent) : Str :=
  entry.name ++ (if entry.type &&& 2 ≠ 0 then [slash] else []) ++ newline

/-- The loop over `vfs_readdir`; `none` if it takes more rounds. -/
def listLoop : (fuel : ℕ) → Vfs → (fd : ℤ) → Option (Str × Vfs)
  | 0, _, _ => none
  | fuel + 1, s, fd =>
    match vfsReaddir s fd with
    | (0, some entry, s) =>
      (listLoop fuel s fd).map fun out => (entryLine entry ++ out.1, out.2)
    | (_, _, s) => some ([], s)

def listFailed (absPath : Str) : Str := str "Failed to open directory (" ++ absPath ++ str ")\n"

def cdl (fuel : ℕ) (stack : ℕ → UInt8) (s : Session) (path : Str) : Option (Str × Session) :=
  let absPath := (resolvePath stack s.gCwd path).dest
  (vfsOpen s.vfs absPath 0).bind fun opened =>
    if opened.1 < 0 then some (listFailed absPath, { s with vfs := opened.2 })
    else
      (listLoop fuel opened.2 opened.1).map fun out =>
        (out.1, { s with vfs := (vfsClose out.2 opened.1).2 })

/-- The loop over `vfs_read`, 512 bytes at a time; `none` if it takes more rounds. -/
def dumpLoop : (fuel : ℕ) → Vfs → (fd : ℤ) → Option (Str × Vfs)
  | 0, _, _ => none
  | fuel + 1, s, fd =>
    (vfsRead s fd 512).bind fun read =>
      if read.1 > 0 then
        (dumpLoop fuel read.2.2 fd).map fun out => (read.2.1 ++ out.1, out.2)
      else some ([], read.2.2)

def dumpFailed (absPath : Str) : Str := str "Failed to open file: " ++ absPath ++ newline

def dump (fuel : ℕ) (stack : ℕ → UInt8) (s : Session) (path : Str) : Option (Str × Session) :=
  let absPath := (resolvePath stack s.gCwd path).dest
  (vfsOpen s.vfs absPath 0).bind fun opened =>
    if opened.1 < 0 then some (dumpFailed absPath, { s with vfs := opened.2 })
    else
      (dumpLoop fuel opened.2 opened.1).map fun out =>
        (out.1 ++ newline, { s with vfs := (vfsClose out.2 opened.1).2 })

def cdDone (newPath : Str) : Str := str "Changed directory to: " ++ newPath ++ newline

def cdFailed (newPath : Str) : Str := str "Path not found: " ++ newPath ++ newline

def cd (stack : ℕ → UInt8) (s : Session) (target : Str) : Option (Str × Session) :=
  let newPath := (resolvePath stack s.gCwd target).dest
  (vfsOpen s.vfs newPath 0).map fun opened =>
    if opened.1 ≥ 0 then
      (cdDone newPath, ⟨newPath, (vfsClose opened.2 opened.1).2⟩)
    else (cdFailed newPath, { s with vfs := opened.2 })

def fileCommand (fuel : ℕ) (m : Machine) (s : Session) : FileCommand → Option (Str × Session)
  | .write filename text => write answers m.stack s filename text
  | .mkdir path => mkdir m.stack s path
  | .cdl path => cdl fuel m.stack s path
  | .dump path => dump fuel m.stack s path
  | .cd target => cd m.stack s target

/-! ## The loop -/

/-- The directory that a line without a command names. -/
def cdTarget (buf : Str) : Option Str :=
  if str "cd " <+: buf then some (buf.drop 3)
  else if buf.head? = some slash then some buf
  else if buf.getLast? = some slash then some buf
  else if buf = dotdot then some dotdot
  else none

def unknownText : Str := str "Unknown command. Type 'help' for list.\n"

/-- The command of a line, by the comparisons of the loop in their order. -/
def parse (buf : Str) : Command :=
  if buf = [] then .nothing
  else if buf = str "help" then .help
  else if buf = str "uptime" then .uptime
  else if buf = str "shutdown" then .shutdown
  else if str "write " <+: buf then
    .file (.write (splitWrite (buf.drop 6)).1 (splitWrite (buf.drop 6)).2)
  else if str "mkdir " <+: buf then .file (.mkdir (buf.drop 6))
  else if str "diskread " <+: buf then .diskread (buf.drop 9)
  else if buf = str "reboot" then .reboot
  else if buf = str "panic" then .panic (str "manual panic from init shell")
  else if str "panic " <+: buf then .panic (buf.drop 6)
  else if str "echo " <+: buf then .echo (buf.drop 5)
  else if buf = str "cdl" ∨ str "cdl " <+: buf then
    .file (.cdl (if buf[3]? = some 0x20 then buf.drop 4 else []))
  else if str "dump " <+: buf then .file (.dump (buf.drop 5))
  else
    match cdTarget buf with
    | some target => .file (.cd target)
    | none => .unknown

section loop

variable {σ : Type} (files : Machine → σ → FileCommand → Option (Str × σ))

/-- A line over any files; `none` if a call crashes, or does not come to its end. -/
def execute (m : Machine) (s : σ) : Command → Option (Turn σ)
  | .nothing => some (.goesOn [] s)
  | .help => some (.goesOn helpText s)
  | .uptime => (uptime m.uptimeMs).map fun text => .goesOn text s
  -- when ACPI returns, no later comparison holds of these two lines
  | .shutdown =>
    if m.acpiReturns then some (.goesOn (str "Initiating ACPI shutdown...\n" ++ unknownText) s)
    else some (.off (str "Initiating ACPI shutdown...\n"))
  | .reboot =>
    if m.acpiReturns then some (.goesOn (str "Initiating ACPI reboot...\n" ++ unknownText) s)
    else some (.off (str "Initiating ACPI reboot...\n"))
  | .file c => (files m s c).map fun out => .goesOn out.1 out.2
  | .diskread p => some (.goesOn (diskread m p) s)
  | .panic reason => some (.panics reason)
  | .echo p => some (.goesOn (p ++ newline) s)
  | .unknown => some (.goesOn unknownText s)

/-- Where the shell is when the lines end. -/
inductive Ending
  | prompt
  | panicked (reason : Str)
  | off
  deriving DecidableEq, Repr

/-- What the lines print, line by line, each on the machine as it is then. -/
def shell : σ → List (Machine × Str) → Option (List Str × Ending)
  | _, [] => some ([], .prompt)
  | s, (m, buf) :: lines =>
    (execute files m s (parse buf)).bind fun turn =>
      match turn with
      | .goesOn text s => (shell s lines).map fun out => (text :: out.1, out.2)
      | .panics reason => some ([], .panicked reason)
      | .off text => some ([text], .off)

end loop

/-- The lines of a session, with the machine at each of them. -/
def sessionLines (machines : ℕ → Machine) (keys : List UInt8) : List (Machine × Str) :=
  (typedLines [] keys).zipIdx.map fun line => (machines line.2, line.1)

end Rhoudveine.Shell
