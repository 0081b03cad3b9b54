import Lineage.Command.Help
import Lineage.Number.Reader

set_option autoImplicit false

/-!
# Reading a command line

The first word names the command. The words after it are parameters in any order, each at most once:
a name after two dashes or a letter after one, with its value in the next word or in the same one.
Words are read from left to right, and the first that does not fit decides; a request for a page
ends the reading as soon as it is met.

## Main definitions

* `Lineage.Command.Request`: what a command line asks for.
* `Lineage.Command.Request.ofWords`: the reading of a command line.
-/

namespace Lineage.Command

/-- What a command line asks for. -/
inductive Request where
  /-- To run a command. -/
  | run (command : Command)
  /-- To print a page. -/
  | page (text : String)
  /-- Nothing that can be understood. -/
  | misuse
  deriving DecidableEq, Repr

/-- The values of the parameters that have been read. -/
structure Given where
  /-- The path of the graph document. -/
  graph : Option String
  /-- The name of a dataset. -/
  dataset : Option String
  /-- The flags that choose how rows are shown. -/
  flags : Flags
  deriving DecidableEq, Repr

namespace Given

/-- Nothing has been read. -/
def empty : Given := ⟨none, none, .none⟩

/-- A number of 64 bits. -/
def number? (value : String) : Option Nat := Number.natOfText? (Number.word64 - 1) value

/-- Take in the value of a parameter, unless it has one or the value does not fit. -/
def take? (g : Given) (p : Parameter) (value : String) : Option Given :=
  match p with
  | .graph =>
    if g.graph.isSome ∨ value = "" then none else some ⟨some value, g.dataset, g.flags⟩
  | .dataset => if g.dataset.isSome then none else some ⟨g.graph, some value, g.flags⟩
  | .batchSize =>
    if g.flags.batchSize.isSome then none
    else (number? value).map fun n => ⟨g.graph, g.dataset, ⟨some n, g.flags.seed, g.flags.limit⟩⟩
  | .seed =>
    if g.flags.seed.isSome then none
    else (number? value).map fun n =>
      ⟨g.graph, g.dataset, ⟨g.flags.batchSize, some n, g.flags.limit⟩⟩
  | .limit =>
    if g.flags.limit.isSome then none
    else (number? value).map fun n =>
      ⟨g.graph, g.dataset, ⟨g.flags.batchSize, g.flags.seed, some n⟩⟩
  | .help => none

/-- The command of a kind, if all that it needs has been read. -/
def command? (g : Given) : Action → Option Command
  | .validate => g.graph.map .validate
  | .dot => g.graph.map .dot
  | .schema => do some (.schema (← g.graph) (← g.dataset))
  | .rows => do some (.rows (← g.graph) (← g.dataset) g.flags)

end Given

/-- A word of a command line. -/
inductive Word where
  /-- Two dashes alone. -/
  | dashes
  /-- A parameter by name, with a value if one is attached. -/
  | named (name : String) (value : Option String)
  /-- A parameter by letter, with the text behind it. -/
  | letter (letter : Char) (rest : String)
  /-- Something else. -/
  | other
  deriving DecidableEq, Repr

/-- The name and the value on the two sides of the first equals sign. -/
def Word.ofNamed (cs : List Char) : Word :=
  match cs.dropWhile (· ≠ '=') with
  | [] => .named (String.ofList cs) none
  | _ :: value => .named (String.ofList (cs.takeWhile (· ≠ '='))) (some (String.ofList value))

/-- Tell what a word is. -/
def Word.ofText (word : String) : Word :=
  match word.toList with
  | ['-', '-'] => .dashes
  | '-' :: '-' :: cs => Word.ofNamed cs
  | '-' :: c :: cs => .letter c (String.ofList cs)
  | _ => .other

/-- The value in the text behind a letter; an equals sign may stand between them. -/
def attachedValue (rest : String) : String :=
  match rest.toList with
  | '=' :: cs => String.ofList cs
  | _ => rest

namespace Action

/-- The parameter of a name. -/
def named? (a : Action) (name : String) : Option Parameter :=
  a.parameters.find? fun p => p.name == name

/-- The parameter of a letter. -/
def lettered? (a : Action) (c : Char) : Option Parameter :=
  a.parameters.find? fun p => p.letter? == some c

/-- Read the words after the first; `pending` is a parameter whose value comes next. -/
def readWords (a : Action) : (pending : Option Parameter) → Given → List String → Request
  | some _, _, [] => .misuse
  | none, g, [] =>
    match g.command? a with
    | some command => .run command
    | none => .misuse
  | some p, g, word :: rest =>
    match Word.ofText word, g.take? p word with
    | .other, some g => readWords a none g rest
    | _, _ => .misuse
  | none, g, word :: rest =>
    match Word.ofText word with
    | .dashes => if rest.isEmpty then readWords a none g rest else .misuse
    | .named name value =>
      match a.named? name, value with
      | none, _ => .misuse
      | some .help, none => .page a.page
      | some .help, some _ => .misuse
      | some p, none => readWords a (some p) g rest
      | some p, some value =>
        match g.take? p value with
        | some g => readWords a none g rest
        | none => .misuse
    | .letter c behind =>
      match a.lettered? c with
      | none => .misuse
      | some .help => .page a.page
      | some p =>
        if behind = "" then readWords a (some p) g rest
        else
          match g.take? p (attachedValue behind) with
          | some g => readWords a none g rest
          | none => .misuse
    | .other => .misuse

end Action

/-- The page that the words after the word for pages ask for. -/
def Request.ofHelpWords : List String → Request
  | [] => .page mainPage
  | [word] =>
    if word = helpWord then .page helpPage
    else
      match Action.ofName? word with
      | some a => .page a.page
      | none => .misuse
  | _ => .misuse

/-- Read a command line. -/
def Request.ofWords : List String → Request
  | [] => .misuse
  | word :: rest =>
    if word = helpWord then Request.ofHelpWords rest
    else
      match Action.ofName? word with
      | some a => a.readWords none .empty rest
      | none =>
        match Word.ofText word with
        | .named "help" none => .page mainPage
        | .letter 'h' _ => .page mainPage
        | _ => .misuse

end Lineage.Command
