import Interclus.Core.Platform
import Interclus.Framework.Fallible

/-! # Host Descriptions

    `tools/describe.py`: a description document is checked and compiled into
    a C header of compartment specs and module descriptors.  A document is
    what the YAML loader makes of the plain tags; where the script stops
    with a message or an exception, it is refused. -/

namespace Interclus

open Words Fallible

/-! ## Documents -/

inductive Yaml where
  | null
  | bool (v : Bool)
  | int (n : Int)
  /-- Of a float only matters whether it is zero. -/
  | float (zero : Bool)
  | str (s : String)
  /-- A date or a timestamp. -/
  | date
  | list (items : List Yaml)
  | dict (entries : List (Yaml × Yaml))

/-- The entries of a dict. -/
abbrev Mapping := List (Yaml × Yaml)

/-- `bool(value)`. -/
def Yaml.truthy : Yaml → Bool
  | .null => false
  | .bool v => v
  | .int n => n ≠ 0
  | .float zero => !zero
  | .str s => s ≠ ""
  | .date => true
  | .list items => !items.isEmpty
  | .dict entries => !entries.isEmpty

/-- The value of an `int`; a bool is one. -/
def Yaml.int? : Yaml → Option Int
  | .int n => some n
  | .bool v => some (if v then 1 else 0)
  | _ => none

def Yaml.hashable : Yaml → Bool
  | .list _ | .dict _ => false
  | _ => true

def Yaml.isKey (key : String) : Yaml → Bool
  | .str s => s = key
  | _ => false

def Mapping.get? (m : Mapping) (key : String) : Option Yaml :=
  (m.find? fun e => e.1.isKey key).map Prod.snd

/-- `m.get(key)`. -/
def Mapping.get (m : Mapping) (key : String) : Yaml := (m.get? key).getD .null

/-! ## Refusals -/

inductive SpecField where
  | textBase | textSize | sramBase | sramSize
  deriving DecidableEq, Repr

def SpecField.key : SpecField → String
  | .textBase => "text_base"
  | .textSize => "text_size"
  | .sramBase => "sram_base"
  | .sramSize => "sram_size"

def specFields : List SpecField := [.textBase, .textSize, .sramBase, .sramSize]

/-- `"base" in field`. -/
def SpecField.isBase : SpecField → Bool
  | .textBase | .sramBase => true
  | .textSize | .sramSize => false

/-- `"size" in field`. -/
def SpecField.isSize (f : SpecField) : Bool := !f.isBase

def Target.key : Target → String
  | .board => "board"
  | .qemu => "qemu"

inductive DescribeError where
  /-- "{what} '{name}' is not a C identifier" -/
  | notIdent (what : String) (name : Yaml)
  /-- "{what} must be a non-negative integer, got {value!r}" -/
  | notUint (what : String) (value : Yaml)
  /-- "{name}.{field} 0x{v:X} is not 4 KiB aligned" -/
  | unaligned (name : String) (field : SpecField) (v : Nat)
  /-- "{name}.{field} 0x{v:X} must be a power of two >= 0x400" -/
  | badSize (name : String) (field : SpecField) (v : Nat)
  /-- "contract_version must be 1" -/
  | badVersion
  /-- "duplicate {what} '{name}'" -/
  | duplicate (what name : String)
  /-- "module {name}: kind must be one of ['ebpf', 'native']" -/
  | badKind (name : String)
  /-- "module {name}: compartment '{comp}' does not exist" -/
  | noCompartment (name : String) (comp : Yaml)
  /-- "module {name}: entry_offset must be 2-byte aligned" -/
  | oddEntry (name : String)
  /-- "module {name}: entry_offset {entry} is outside its text region ({target})" -/
  | entryOutside (name : String) (entry : Nat) (target : Target)
  /-- An exception of the interpreter. -/
  | raised

/-- What `value.get` needs. -/
def Yaml.mapping : Yaml → Except DescribeError Mapping
  | .dict entries => .ok entries
  | _ => .error .raised

/-- The items of `value or []`.  What else can be iterated has items that
    are no dicts. -/
def Yaml.items (value : Yaml) : Except DescribeError (List Yaml) :=
  if value.truthy then
    match value with
    | .list items => .ok items
    | _ => .error .raised
  else .ok []

/-! ## Overrides -/

/-- An item of a sequence, as `dict.update` takes it. -/
def Yaml.pair : Yaml → Except DescribeError (Yaml × Yaml)
  | .list [key, value] => if key.hashable then .ok (key, value) else .error .raised
  | .dict [(key, _), (value, _)] => .ok (key, value)
  | .str s =>
    match s.toList with
    | [key, value] => .ok (.str key.toString, .str value.toString)
    | _ => .error .raised
  | _ => .error .raised

/-- What `dict.update` takes, the last entries first. -/
def Yaml.entries : Yaml → Except DescribeError Mapping
  | .dict entries => .ok entries
  | .list items => return (← items.mapM Yaml.pair).reverse
  | _ => .error .raised

/-- `resolved`. -/
def resolved (c : Mapping) (target : Target) : Except DescribeError Mapping :=
  if (c.get target.key).truthy then return (← (c.get target.key).entries) ++ c
  else .ok c

/-! ## Checks -/

def CONTRACT_VERSION : Nat := 1
def ALIGN : Nat := 0x1000
def MIN_SIZE : Nat := 0x400

def identHead (c : Char) : Bool := c.isAlpha ∨ c = '_'
def identTail (c : Char) : Bool := c.isAlphanum ∨ c = '_'

/-- `re.match(r"[A-Za-z_][A-Za-z0-9_]*$", s)`; the `$` matches before a final
    newline too. -/
def isIdent (s : String) : Bool :=
  match if s.toList.getLast? = some '\n' then s.toList.dropLast else s.toList with
  | [] => false
  | c :: cs => identHead c && cs.all identTail

def ident (name : Yaml) (what : String) : Except DescribeError String :=
  match if name.truthy then name else .str "" with
  | .str s => if isIdent s then .ok s else .error (.notIdent what name)
  | _ => .error .raised

def uint (value : Yaml) (what : String) : Except DescribeError Nat :=
  match value.int? with
  | some n => if n < 0 then .error (.notUint what value) else .ok n.toNat
  | none => .error (.notUint what value)

/-- One turn of the loop of `check_compartment`. -/
def checkField (name : String) (c : Mapping) (field : SpecField) : Except DescribeError PUnit := do
  let v ← uint (c.get field.key) (name ++ "." ++ field.key)
  failIf (field.isBase ∧ v % ALIGN ≠ 0) (.unaligned name field v)
  failIf (field.isSize ∧ (v < MIN_SIZE ∨ v &&& (v - 1) ≠ 0)) (.badSize name field v)

/-- `check_compartment`. -/
def checkCompartment (name : String) (c : Mapping) : Except DescribeError PUnit :=
  forM specFields (checkField name c)

inductive ModuleKind where
  | ebpf | native
  deriving DecidableEq, Repr

/-- `KINDS`. -/
def KINDS : List (String × ModuleKind) := [("ebpf", .ebpf), ("native", .native)]

/-- `table[key]`, for a table whose keys are strings. -/
def lookupKey (table : List (String × α)) : Yaml → Option α
  | .str s => table.lookup s
  | _ => none

/-- `m.get("entry_offset", 0)`. -/
def Mapping.entryOffset (m : Mapping) : Yaml := (m.get? "entry_offset").getD (.int 0)

/-- The last check of `check_module`.  A text size that is a float cannot be
    formatted later. -/
def checkEntry (name : String) (c : Mapping) (entry : Nat) (target : Target) :
    Except DescribeError PUnit := do
  let c ← resolved c target
  match (c.get SpecField.textSize.key).int? with
  | some textSize => failIf (textSize ≤ entry) (.entryOutside name entry target)
  | none => .error .raised

/-- `check_module`. -/
def checkModule (compartments : List (String × Mapping)) (m : Mapping) :
    Except DescribeError (String × ModuleKind) := do
  let name ← ident (m.get "name") "module name"
  match lookupKey KINDS (m.get "kind") with
  | none => .error (if (m.get "kind").hashable then .badKind name else .raised)
  | some kind =>
    match lookupKey compartments (m.get "compartment") with
    | none =>
      .error (if (m.get "compartment").hashable then .noCompartment name (m.get "compartment")
        else .raised)
    | some c =>
      let entry ← uint m.entryOffset (name ++ ".entry_offset")
      failIf (entry % 2 ≠ 0) (.oddEntry name)
      checkEntry name c entry .board
      checkEntry name c entry .qemu
      return (name, kind)

/-! ## The header -/

/-- The text `0x{v:X}u`: of an integer, or of a date, which formats as `X`. -/
inductive HexLiteral where
  | num (n : Int)
  | text
  deriving DecidableEq, Repr

def hexLiteral (value : Yaml) : Except DescribeError HexLiteral :=
  match value.int? with
  | some n => .ok (.num n)
  | none =>
    match value with
    | .date => .ok .text
    | _ => .error .raised

/-- The four numbers of a region pair. -/
structure SpecLiterals where
  textBase : HexLiteral
  textSize : HexLiteral
  sramBase : HexLiteral
  sramSize : HexLiteral
  deriving DecidableEq, Repr

def specLiterals (c : Mapping) : Except DescribeError SpecLiterals := do
  let textBase ← hexLiteral (c.get SpecField.textBase.key)
  let textSize ← hexLiteral (c.get SpecField.textSize.key)
  let sramBase ← hexLiteral (c.get SpecField.sramBase.key)
  let sramSize ← hexLiteral (c.get SpecField.sramSize.key)
  return ⟨textBase, textSize, sramBase, sramSize⟩

/-- `spec_line`. -/
structure SpecDecl where
  name : String
  spec : SpecLiterals
  deriving DecidableEq, Repr

/-- `module_line`. -/
structure ModuleDecl where
  name : String
  kind : ModuleKind
  spec : SpecLiterals
  entry : Nat
  deriving DecidableEq, Repr

structure Decls where
  specs : List SpecDecl
  modules : List ModuleDecl
  deriving DecidableEq, Repr

/-- A module that passed its checks. -/
structure ModuleEntry where
  name : String
  doc : Mapping
  kind : ModuleKind

def specDecl (target : Target) (c : String × Mapping) : Except DescribeError SpecDecl := do
  return ⟨c.1, ← specLiterals (← resolved c.2 target)⟩

def moduleDecl (compartments : List (String × Mapping)) (target : Target) (m : ModuleEntry) :
    Except DescribeError ModuleDecl :=
  match lookupKey compartments (m.doc.get "compartment") with
  | none => .error .raised
  | some c => do
    let c ← resolved c target
    let entry ← uint m.doc.entryOffset "entry_offset"
    return ⟨m.name, m.kind, ← specLiterals c, entry⟩

/-- `decls`. -/
def decls (compartments : List (String × Mapping)) (modules : List ModuleEntry)
    (target : Target) : Except DescribeError Decls := do
  let specs ← compartments.mapM (specDecl target)
  let mods ← modules.mapM (moduleDecl compartments target)
  return ⟨specs, mods⟩

/-- The body of the header: one list of declarations, or two behind
    `#ifdef QEMU_TARGET`. -/
inductive HeaderBody where
  | plain (decls : Decls)
  | branched (qemu board : Decls)

/-- What the preprocessor leaves of it. -/
def HeaderBody.decls : HeaderBody → Target → Decls
  | .plain decls, _ => decls
  | .branched qemu _, .qemu => qemu
  | .branched _ board, .board => board

/-- One turn of the loop over the compartments. -/
def addCompartment (compartments : List (String × Mapping)) (item : Yaml) :
    Except DescribeError (List (String × Mapping)) := do
  let c ← item.mapping
  let name ← ident (c.get "name") "compartment name"
  failIf (compartments.any fun c => c.1 = name) (.duplicate "compartment" name)
  checkCompartment name c
  checkCompartment name (← resolved c .qemu)
  return compartments ++ [(name, c)]

/-- One turn of the loop over the modules. -/
def addModule (compartments : List (String × Mapping)) (modules : List ModuleEntry)
    (item : Yaml) : Except DescribeError (List ModuleEntry) := do
  let m ← item.mapping
  let (name, kind) ← checkModule compartments m
  failIf (modules.any fun m => m.name = name) (.duplicate "module" name)
  return modules ++ [⟨name, m, kind⟩]

/-- `main`, from the loaded document to the body of the header. -/
def describe (doc : Yaml) : Except DescribeError HeaderBody := do
  let doc ← (if doc.truthy then doc else .dict []).mapping
  let version ← uint (doc.get "contract_version") "contract_version"
  failIf (version ≠ CONTRACT_VERSION) .badVersion
  let compartments ← (← (doc.get "compartments").items).foldlM addCompartment []
  let modules ← (← (doc.get "modules").items).foldlM (addModule compartments) []
  let board ← decls compartments modules .board
  let qemu ← decls compartments modules .qemu
  return if board ≠ qemu then .branched qemu board else .plain board

/-! ## What the compiler makes of a header -/

/-- The value of a constant.  One that no type holds, or that is not a
    number, has none. -/
def HexLiteral.value : HexLiteral → Option U32
  | .num n => if 0 ≤ n ∧ n < 0x10000000000000000 then some (BitVec.ofInt 32 n) else none
  | .text => none

/-- The spec that a declaration initialises. -/
def SpecLiterals.value (s : SpecLiterals) : Option IcCompartmentSpec := do
  return ⟨← s.textBase.value, ← s.textSize.value, ← s.sramBase.value, ← s.sramSize.value⟩

/-- `IC_MODULE_EBPF`, `IC_MODULE_NATIVE`. -/
def ModuleKind.value : ModuleKind → U16
  | .ebpf => IC_MODULE_EBPF
  | .native => IC_MODULE_NATIVE

/-- The descriptor that a declaration initialises. -/
def ModuleDecl.value (m : ModuleDecl) : Option IcModuleDesc := do
  return specDesc m.kind.value (← m.spec.value) (← (HexLiteral.num m.entry).value)

end Interclus
