/-
  Command line arguments: options with one or two dashes, of which long ones may be abbreviated
  and take their value behind an equals sign, and one positional argument, the program file.

  Arguments are first sorted into options and others, and then used up from left to right.
-/
import Cadence.Failure

namespace Cadence.CommandLine

inductive Opt where
  | help
  | verbose
  | trackFile
  | seed
  deriving DecidableEq, Repr

/-- The spellings of the options. -/
def spellings : List (String × Opt) :=
  [("-h", .help), ("--help", .help), ("-v", .verbose), ("--track-file", .trackFile),
   ("--seed", .seed)]

def Opt.takesValue : Opt → Bool
  | .help | .verbose => false
  | .trackFile | .seed => true

/-- The option in messages. -/
def Opt.text (o : Opt) : String :=
  String.intercalate "/" ((spellings.filter fun s => s.2 == o).map Prod.fst)

/-- The value of an option. A lone separator behind an equals sign is given up for no value. -/
inductive Setting (α : Type) where
  | unset
  | given (value : α)
  | void
  deriving DecidableEq, Repr

/-- The value to work with, if there is one: `other` stands in for an option that is not set. -/
def Setting.value? {α : Type} (other : α) : Setting α → Option α
  | .unset => some other
  | .given value => some value
  | .void => none

/-- What the arguments ask for. -/
structure Arguments where
  program : String
  verbosity : Nat
  trackFile : Setting String
  seed : Setting Int
  deriving DecidableEq, Repr

/-- Why there is nothing to run. -/
inductive Stop where
  | help
  | usage (message : String)
  deriving DecidableEq, Repr

/-- An argument by its role. The option of an unknown flag is `none`. -/
inductive Token where
  | option (flag : Option (Opt × String)) (explicit : Option String)
  | separator
  | other
  deriving DecidableEq, Repr

/-! ## Roles -/

/-- Splits at the first equals sign. -/
def splitEquals (s : String) : String × Option String :=
  let cs := s.toList
  let before := String.ofList (cs.takeWhile (· != '='))
  match cs.dropWhile (· != '=') with
  | _ :: after => (before, some (String.ofList after))
  | [] => (before, none)

/-- Characters without a line feed at the end. -/
def dropLineFeed (cs : List Char) : List Char :=
  if cs.getLast? == some '\n' then cs.dropLast else cs

/-- A negative number is no option. A line feed may follow it. -/
def isNumberLike (s : String) : Bool :=
  let isDecimal (c : Char) := (Text.decimalValue? c).isSome
  match s.toList with
  | '-' :: cs =>
      let cs := dropLineFeed cs
      match cs.dropWhile isDecimal with
      | [] => !cs.isEmpty
      | '.' :: fraction => !fraction.isEmpty && fraction.all isDecimal
      | _ => false
  | _ => false

/-- The options that a spelling which is not exact may mean. -/
def candidates (s : String) : List (Opt × String × Option String) :=
  match s.toList with
  | '-' :: '-' :: _ =>
      let (stem, explicit) := splitEquals s
      (spellings.filter fun o => o.1.startsWith stem).map fun o => (o.2, o.1, explicit)
  | '-' :: c :: rest =>
      let short := String.ofList ['-', c]
      (spellings.filter fun o => o.1 == short).map fun o =>
        (o.2, o.1, some (String.ofList rest))
  | _ => []

/-- The role of one argument before any separator. -/
def tokenOf (s : String) : Except Stop Token :=
  match s.toList with
  | '-' :: _ :: _ =>
      match spellings.lookup s, splitEquals s with
      | some o, _ => .ok (.option (some (o, s)) none)
      | none, (stem, explicit) =>
          match explicit.bind fun _ => spellings.lookup stem, candidates s with
          | some o, _ => .ok (.option (some (o, stem)) explicit)
          | none, [(o, flag, explicit)] => .ok (.option (some (o, flag)) explicit)
          | none, [] =>
              if isNumberLike s || s.toList.contains ' ' then .ok .other
              else .ok (.option none none)
          | none, many =>
              let flags := String.intercalate ", " (many.map fun c => c.2.1)
              .error (.usage s!"ambiguous option: {s} could match {flags}")
  | _ => .ok .other

/-- The roles of all arguments. Behind a separator there are no options. -/
def tokens : List String → Except Stop (List (String × Token))
  | [] => .ok []
  | "--" :: rest => .ok (("--", .separator) :: rest.map fun s => (s, .other))
  | s :: rest => do
      let t ← tokenOf s
      let ts ← tokens rest
      return (s, t) :: ts

/-! ## Use -/

/-- What has been read so far. -/
structure Progress where
  program : Option String := none
  verbosity : Nat := 0
  trackFile : Setting String := .unset
  seed : Setting Int := .unset
  /-- Arguments that nothing has a use for. -/
  extras : List String := []

def complain {α : Type} (o : Opt) (message : String) : Except Stop α :=
  .error (.usage s!"argument {o.text}: {message}")

/-- Uses an option and its value, if it takes one. -/
def Progress.take (p : Progress) (o : Opt) (value : String) : Except Stop Progress :=
  match o with
  | .help => .error .help
  | .verbose => .ok { p with verbosity := p.verbosity + 1 }
  | .trackFile => .ok { p with trackFile := if value == "--" then .void else .given value }
  | .seed =>
      if value == "--" then .ok { p with seed := .void }
      else match Text.readInt value with
        | .ok n => .ok { p with seed := .given n }
        | .error _ => complain .seed s!"invalid int value: {Text.quoted value}"

/-- The options written together behind one dash, from `o` on; `explicit` holds the characters
    behind it. Gives the options in order, the last with its value. -/
def cluster (o : Opt) (long : Bool) (explicit : String) :
    List Char → Except Stop (List (Opt × Option String))
  | [] => .ok [(o, if o.takesValue then some explicit else none)]
  | c :: rest =>
      if o.takesValue then .ok [(o, some explicit)]
      else if long then complain o s!"ignored explicit argument {Text.quoted explicit}"
      else
        match spellings.lookup (String.ofList ['-', c]) with
        | some next => (cluster next false (String.ofList rest) rest).map ((o, none) :: ·)
        | none => complain o s!"ignored explicit argument {Text.quoted explicit}"

def isOption : String × Token → Bool
  | (_, .option ..) => true
  | _ => false

/-- Uses up what follows the last option: the program file if it is still to come. -/
def Progress.finish (p : Progress) (items : List (String × Token)) : Progress :=
  let spare (rest : List (String × Token)) := p.extras ++ rest.map Prod.fst
  match p.program, items with
  | none, (_, .separator) :: (s, _) :: rest => { p with program := some s, extras := spare rest }
  | none, (s, _) :: (_, .separator) :: rest => { p with program := some s, extras := spare rest }
  | none, (s, .other) :: rest => { p with program := some s, extras := spare rest }
  | _, items => { p with extras := spare items }

/-- Uses up the arguments from left to right. -/
def Progress.consume (p : Progress) : List (String × Token) → Except Stop Progress
  | [] => .ok p
  | (s, .option none _) :: rest => consume { p with extras := p.extras ++ [s] } rest
  | (_, .option (some (o, flag)) explicit) :: rest =>
      match explicit with
      | some value =>
          let long := flag.startsWith "--"
          if value.isEmpty && !o.takesValue then
            complain o s!"ignored explicit argument {Text.quoted value}"
          else do
            let uses ← cluster o long value value.toList
            let p ← uses.foldlM (fun p (u : Opt × Option String) => p.take u.1 (u.2.getD "")) p
            consume p rest
      | none =>
          if o.takesValue then
            match rest with
            | (value, .other) :: rest => do
                let p ← p.take o value
                consume p rest
            | _ => complain o "expected one argument"
          else do
            let p ← p.take o ""
            consume p rest
  | (s, t) :: rest =>
      if rest.any isOption then
        match p.program with
        | none => consume { p with program := some s } rest
        | some _ => consume { p with extras := p.extras ++ [s] } rest
      else .ok (p.finish ((s, t) :: rest))

/-- Reads the arguments. -/
def Arguments.ofList (args : List String) : Except Stop Arguments := do
  let items ← tokens args
  let p ← ({} : Progress).consume items
  match p.program, p.extras with
  | none, _ => throw (.usage "the following arguments are required: program")
  | some program, [] =>
      return { program, verbosity := p.verbosity, trackFile := p.trackFile, seed := p.seed }
  | some _, extras =>
      throw (.usage ("unrecognized arguments: " ++ String.intercalate " " extras))

end Cadence.CommandLine
