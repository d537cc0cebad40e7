/-
The configuration and its parser (`src/config.rs`). Conversion of a path to a UEFI string is the
`uefi` crate's, and a parameter here. What a function prints stands next to what it does, as the text
of a report; `parsePrinting` is the parser that prints them, and panics where the console cannot show one.
`parse` is what it returns if it does.
-/
import Bang.Uefi.Console

namespace Bang

/-! ## The configuration -/

/-- A UEFI string, without its terminator. -/
abbrev CString16 := List UInt16

/-- `cstr16!`: a UEFI string from a literal. -/
def cstr16 (s : String) : CString16 := s.toList.map fun c => UInt16.ofNat c.toNat

/-- A handle is an address the firmware gave out. -/
abbrev Handle := Nat

/-- How an entry is started. -/
inductive Target
  /-- A Multiboot2 or Multiboot1 kernel, with optional modules. -/
  | multiboot (kernel : CString16) (modules : Option CString16)
  /-- Another UEFI application; `none` means the volume Bang was loaded from. -/
  | chainload (path : CString16) (device : Option Handle)
  /-- A Linux bzImage through the EFI handover protocol. -/
  | linux (kernel : CString16) (initrd : Option CString16) (cmdline : Str)
  deriving DecidableEq, Repr

structure Entry where
  title : Str
  target : Target
  deriving DecidableEq, Repr

structure Config where
  timeout : UInt64
  default : Nat
  entries : List Entry
  autodetect : Bool
  deriving DecidableEq, Repr

/-- What Bang did before it could be configured. -/
def Config.builtin : Config where
  timeout := 0
  default := 0
  autodetect := true
  entries := [⟨"Quark".toList, .multiboot (cstr16 "\\kernel.bin") (some (cstr16 "\\drivers"))⟩]

/-! ## Lines -/

/-- Split a line into its directive and the rest, both trimmed. -/
def split (line : Str) : Str × Str := Trim.word isWhitespace (strTrim line)

/-- The directives there are. -/
inductive Directive
  | timeout | autodetect | default | entry | multiboot | modules | chainload | linux | initrd | options
  deriving DecidableEq, Repr

/-- How a directive is written. -/
def Directive.name : Directive → String
  | .timeout => "timeout"
  | .autodetect => "autodetect"
  | .default => "default"
  | .entry => "entry"
  | .multiboot => "multiboot"
  | .modules => "modules"
  | .chainload => "chainload"
  | .linux => "linux"
  | .initrd => "initrd"
  | .options => "options"

def Directive.all : List Directive :=
  [.timeout, .autodetect, .default, .entry, .multiboot, .modules, .chainload, .linux, .initrd, .options]

/-- The arm of the parser's `match` a word goes to. -/
def directiveOf (word : Str) : Option Directive := Directive.all.find? fun d => d.name.toList == word

/-! ## The parser -/

/-- The configuration so far, and the title of the default, which may name an entry declared later. -/
structure ParseState extends Config where
  defaultTitle : Option Str
  deriving DecidableEq, Repr

/-- Before the first line. -/
def ParseState.start : ParseState where
  timeout := 5
  default := 0
  entries := []
  autodetect := true
  defaultTitle := none

/-- What is printed of a line that is not applied. -/
abbrev Report := Option String

/-- `matches!(arg, "off" | "no" | "false" | "0")`. -/
def autodetectOff (arg : Str) : Bool := arg ∈ ["off".toList, "no".toList, "false".toList, "0".toList]

section
variable (tryFrom : Str → Option CString16)

/-- A path from the config, as UEFI wants it, and what is printed if it cannot be. -/
def path (arg : Str) : Option CString16 × Report :=
  match tryFrom arg with
  | some p => (some p, none)
  | none => (none, some ("[!] bang.cfg: cannot use path \"" ++ String.ofList arg ++ "\""))

/-- What a directive does to the entry it stands in, and what is printed of it. -/
def applyToEntry (directive arg : Str) (entry : Entry) : Entry × Report :=
  match directiveOf directive with
  | some .multiboot =>
    match path tryFrom arg with
    | (some p, report) => ({ entry with target := .multiboot p none }, report)
    | (none, report) => (entry, report)
  | some .modules =>
    match entry.target with
    | .multiboot kernel _ =>
      let (modules, report) := path tryFrom arg
      ({ entry with target := .multiboot kernel modules }, report)
    | _ => (entry, some "[!] bang.cfg: modules only apply to a multiboot entry")
  | some .chainload =>
    match path tryFrom arg with
    | (some p, report) => ({ entry with target := .chainload p none }, report)
    | (none, report) => (entry, report)
  | some .linux =>
    match path tryFrom arg with
    | (some p, report) => ({ entry with target := .linux p none [] }, report)
    | (none, report) => (entry, report)
  | some .initrd =>
    match entry.target with
    | .linux kernel _ cmdline =>
      let (initrd, report) := path tryFrom arg
      ({ entry with target := .linux kernel initrd cmdline }, report)
    | _ => (entry, some "[!] bang.cfg: initrd only applies to a linux entry")
  | some .options =>
    match entry.target with
    | .linux kernel initrd _ => ({ entry with target := .linux kernel initrd arg }, none)
    | _ => (entry, some "[!] bang.cfg: options only apply to a linux entry")
  | _ => (entry, some ("[!] bang.cfg: ignoring \"" ++ String.ofList directive ++ "\""))

/-- What a directive does to the last entry, if there is one. -/
def applyToLast (directive arg : Str) (s : ParseState) : ParseState × Report :=
  match s.entries.getLast? with
  | none => (s, some ("[!] bang.cfg: \"" ++ String.ofList directive ++ "\" before any entry"))
  | some entry =>
    let (entry, report) := applyToEntry tryFrom directive arg entry
    ({ s with entries := s.entries.dropLast ++ [entry] }, report)

/-- What a directive does. -/
def applyDirective (directive arg : Str) (s : ParseState) : ParseState × Report :=
  match directiveOf directive with
  | some .timeout => ({ s with timeout := ((parseUnsigned arg).map UInt64.ofNat).getD 5 }, none)
  | some .autodetect => ({ s with autodetect := !autodetectOff arg }, none)
  -- a number selects by position, anything else by title
  | some .default =>
    match parseUnsigned arg with
    | some n => ({ s with default := n }, none)
    | none => ({ s with defaultTitle := some arg }, none)
  -- an entry that never gets a target is dropped below
  | some .entry => ({ s with entries := s.entries ++ [⟨arg, .multiboot [] none⟩] }, none)
  | _ => applyToLast tryFrom directive arg s

/-- One line, with its ending removed. -/
def applyLine (s : ParseState) (raw : Str) : ParseState × Report :=
  let line := strTrim (beforeHash raw)
  if line = [] then (s, none)
  else
    let (directive, arg) := split line
    applyDirective tryFrom directive arg s

/-- The lines, one after another. -/
def applyLines (s : ParseState) (lines : List Str) : ParseState :=
  lines.foldl (fun s raw => (applyLine tryFrom s raw).1) s

/-- An entry whose target was never filled in names nothing to boot. -/
def Entry.filled (e : Entry) : Bool :=
  match e.target with
  | .multiboot kernel _ => kernel ≠ []
  | _ => true

/-- The default's position among the entries that were kept, where a title was given. -/
def resolveDefault (defaultTitle : Option Str) (entries : List Entry) (default : Nat) : Nat :=
  match defaultTitle with
  | none => default
  | some title => (entries.findIdx? fun e => e.title = title).getD default

/-- What is done behind the last line: entries are dropped, and the default resolved. -/
def ParseState.finish (s : ParseState) : Config :=
  let entries := s.entries.filter Entry.filled
  let default := resolveDefault s.defaultTitle entries s.default
  { timeout := s.timeout
    autodetect := s.autodetect
    entries := entries
    default := if default ≥ entries.length then 0 else default }

/-- What is printed behind the last line: a default that names no entry. -/
def ParseState.report (s : ParseState) : Report :=
  match s.defaultTitle with
  | none => none
  | some title =>
    if (s.entries.filter Entry.filled).any fun e => e.title = title then none
    else some ("[!] bang.cfg: no entry named \"" ++ String.ofList title ++ "\"")

/-- The configuration of a text, if all that is said of it can be printed. -/
def parse (text : Str) : Config := (applyLines tryFrom .start (strLines text)).finish

/-! ## Printing -/

variable {κ : Type} (con : Console κ)

/-- Print a report, if there is one; `none` is a panic. -/
def Console.report : Report → κ → Option κ
  | none, k => some k
  | some text, k => con.println text.toList k

/-- One line, and what is printed of it. -/
def printLine (sk : ParseState × κ) (raw : Str) : Option (ParseState × κ) :=
  let (s, report) := applyLine tryFrom sk.1 raw
  (con.report report sk.2).map fun k => (s, k)

/-- Parse a configuration. -/
def parsePrinting (text : Str) (k : κ) : Option (Config × κ) := do
  let (s, k) ← (strLines text).foldlM (printLine tryFrom con) (.start, k)
  let k ← con.report s.report k
  pure (s.finish, k)

/-- The configuration of `\bang.cfg`, or what Bang did before there was one. -/
def configured (file : Option Str) (k : κ) : Option (Config × κ) :=
  match file with
  | none => some (.builtin, k)
  | some text => parsePrinting tryFrom con text k

end

end Bang
