import StaticPreview.Command.Switch

/-! # Commands and the command lines that ask for them -/
namespace StaticPreview

inductive Command where
  | init (overwrite : Bool)
  | convert (file : String) (output : Option String) (asJson : Bool) (label : Option String)
  | dev (port : Nat) (opensBrowser : Bool)
  | build (output : Option String) (keepsStylesheet : Bool)
  | serve (port : Nat) (folder : String)
  deriving DecidableEq, Repr

structure Invocation where
  command : Command
  configuration : String
  verbose : Bool
  deriving DecidableEq, Repr

namespace Command

def defaultConfiguration : String := "stillframe.toml"

/-- The switches that may stand before a command as well as behind it. -/
def common : List Switch :=
  [⟨"config", some 'c', .path⟩, ⟨"verbose", some 'v', .flag⟩, ⟨"help", some 'h', .help⟩]

def topSwitches : List Switch := ⟨"version", some 'V', .version⟩ :: common

structure Form where
  name : String
  switches : List Switch
  operands : Nat
  make : Given → Option Command

def portOf (g : Given) (default : Nat) : Option Nat :=
  match g.value? "port" with
  | some s => port? s
  | none => some default

def forms : List Form :=
  [⟨"init", [⟨"yes", some 'y', .flag⟩], 0, fun g => some (.init (g.has "yes"))⟩,
    ⟨"convert",
      [⟨"output", some 'o', .path⟩, ⟨"json", none, .flag⟩, ⟨"label", some 'l', .text⟩], 1,
      fun g => g.operands.head?.map fun file =>
        .convert file (g.value? "output") (g.has "json") (g.value? "label")⟩,
    ⟨"dev", [⟨"port", some 'p', .port⟩, ⟨"no-open", none, .flag⟩], 0,
      fun g => (portOf g 7777).map fun port => .dev port !(g.has "no-open")⟩,
    ⟨"build", [⟨"output", some 'o', .path⟩, ⟨"no-minify", none, .flag⟩], 0,
      fun g => some (.build (g.value? "output") (g.has "no-minify"))⟩,
    ⟨"serve", [⟨"port", some 'p', .port⟩, ⟨"dir", some 'd', .path⟩], 0,
      fun g => (portOf g 4000).map fun port => .serve port ((g.value? "dir").getD "dist")⟩]

def isHelpTopic : List String → Bool
  | [] => true
  | [name] => name = "help" || forms.any fun form => form.name == name
  | _ => false

end Command

open Command

/-- The invocation that the words of a command line ask for. A switch behind the command is
stronger than the same one before it. -/
def Invocation.ofWords (words : List String) : Except Stop Invocation := do
  match ← readSwitches topSwitches words .none with
  | (before, .operand name more) =>
    match forms.find? (fun form => form.name == name) with
    | some form =>
      let behind ← readWords (common ++ form.switches) form.operands more .none
      match form.make behind with
      | some command =>
        let given := behind.switches ++ before.switches
        return ⟨command, (given.lookup "config").getD defaultConfiguration,
          (given.lookup "verbose").isSome⟩
      | none => throw .usage
    | none => if name = "help" && isHelpTopic more then throw .help else throw .usage
  | _ => throw .usage

end StaticPreview
