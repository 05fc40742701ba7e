import LispFront.Form.Metadata
import LispFront.Sorted

/-!
# The directory of namespaces

A namespace maps names to vars and, by its aliases, names to namespaces; the directory holds the
namespaces and the classes that are known to exist. What stands under a key has a name of its own,
which writers take care to make the same. A writer works on a copy of the table, and the copy is the
table from then on, whether the writer came to an end or gave up. Nothing is ever removed: a var
interned again keeps its name and takes the new metadata, and an alias keeps its target.
-/

namespace LispFront

structure Var where
  id : VarName
  metadata : FormMap

structure SymbolMap (α : Type) where
  entries : List (Symbol × α)

namespace SymbolMap

def empty : SymbolMap α := ⟨[]⟩

def find? (m : SymbolMap α) (key : Symbol) : Option α :=
  (Sorted.find? (fun e => key.cmp e.1) m.entries).map (·.2)

def insert (m : SymbolMap α) (key : Symbol) (a : α) : SymbolMap α :=
  ⟨Sorted.insert (fun e e' => e.1.cmp e'.1) (key, a) m.entries⟩

def keys (m : SymbolMap α) : List Symbol := m.entries.map (·.1)

end SymbolMap

structure Namespace where
  name : Symbol
  vars : SymbolMap Var
  aliases : SymbolMap Symbol

structure Directory where
  namespaces : SymbolMap Namespace
  classes : List Symbol

inductive DirectoryError where
  | missingNamespace (name : Symbol)
  | aliasConflict (ns short existing : Symbol)
  | qualifiedName (name : Symbol)
deriving DecidableEq

def DirectoryError.message : DirectoryError → String
  | .missingNamespace name => "namespace " ++ name.text ++ " was not found"
  | .aliasConflict ns short existing =>
    "alias " ++ short.text ++ " already refers to namespace " ++ existing.text ++
      " in namespace " ++ ns.text
  | .qualifiedName name => "can't intern namespace-qualified symbol " ++ name.text

namespace Namespace

def empty (name : Symbol) : Namespace := ⟨name, .empty, .empty⟩

def var? (n : Namespace) (name : Symbol) : Option Var := n.vars.find? name

def aliasTarget? (n : Namespace) (short : Symbol) : Option Symbol := n.aliases.find? short

def addVar (n : Namespace) (name : Symbol) (v : Var) : Namespace :=
  { n with vars := n.vars.insert name v }

def addAlias (n : Namespace) (short target : Symbol) : Namespace :=
  { n with aliases := n.aliases.insert short target }

def names (n : Namespace) : List Symbol := n.vars.keys

end Namespace

namespace Directory

def empty : Directory := ⟨.empty, []⟩

def find? (d : Directory) (name : Symbol) : Option Namespace := d.namespaces.find? name

def isClass (d : Directory) (name : Symbol) : Bool := (Sorted.find? name.cmp d.classes).isSome

def put (d : Directory) (key : Symbol) (n : Namespace) : Directory :=
  { d with namespaces := d.namespaces.insert key n }

def addClass (d : Directory) (name : Symbol) : Directory :=
  { d with classes := Sorted.insert Symbol.cmp name d.classes }

end Directory

/-- What a writer does to its copy of the table, until it gives an answer or gives up. -/
abbrev WriterM := ExceptT DirectoryError (StateM Directory)

namespace WriterM

def get (name : Symbol) : WriterM Namespace := do
  match (← getThe Directory).find? name with
  | some n => return n
  | none => throw (.missingNamespace name)

def put (n : Namespace) : WriterM Unit := modify (·.put n.name n)

def create (name : Symbol) : WriterM Unit := do
  if ((← getThe Directory).find? name).isNone then modify (·.put name (.empty name))

def addAlias (ns short target : Symbol) : WriterM Unit := do
  let _ ← get target
  let n ← get ns
  match n.aliasTarget? short with
  | some existing =>
    if existing = target then put (n.addAlias short target)
    else throw (.aliasConflict ns short existing)
  | none => put (n.addAlias short target)

def intern (ns name : Symbol) (metadata : FormMap) : WriterM Var := do
  let n ← get ns
  let v : Var := ⟨⟨n.name, name⟩, metadata⟩
  put (n.addVar name v)
  return v

def registerClass (name : Symbol) : WriterM Unit := modify (·.addClass name)

end WriterM

namespace Directory

/-- The answer of the writer, and its copy, which is published in any case. -/
def update (d : Directory) (writer : WriterM α) : Except DirectoryError α × Directory :=
  writer.run.run d

def tryAddAlias (d : Directory) (ns short target : Symbol) :
    Except DirectoryError Unit × Directory :=
  d.update (.addAlias ns short target)

def tryIntern (d : Directory) (ns name : Symbol) (metadata : FormMap) :
    Except DirectoryError Var × Directory :=
  if name.ns.isSome then (.error (.qualifiedName name), d)
  else d.update (.intern ns name metadata)

def create (d : Directory) (name : Symbol) : Directory := (d.update (.create name)).2

def registerClass (d : Directory) (name : Symbol) : Directory := (d.update (.registerClass name)).2

def outcome : Except DirectoryError α × Directory → Except DirectoryError (α × Directory)
  | (.ok a, d) => .ok (a, d)
  | (.error e, _) => .error e

def addAlias (d : Directory) (ns short target : Symbol) : Except DirectoryError Directory :=
  (outcome (d.tryAddAlias ns short target)).map (·.2)

def intern (d : Directory) (ns name : Symbol) (metadata : FormMap) :
    Except DirectoryError (Var × Directory) :=
  outcome (d.tryIntern ns name metadata)

/-- The namespace that `name` means inside `home`: what it is an alias of, else itself. -/
def resolveNamespace? (d : Directory) (home name : Symbol) : Option Symbol :=
  match (d.find? home).bind (·.aliasTarget? name) with
  | some target => some target
  | none => (d.find? name).map (·.name)

def resolve? (d : Directory) (home s : Symbol) : Option Var := do
  let ns ← match s.ns with
    | some ns => d.resolveNamespace? home (.plain ns)
    | none => some home
  (← d.find? ns).var? (.plain s.name)

end Directory

end LispFront
