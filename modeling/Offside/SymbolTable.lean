import Offside.DataType
import Offside.Location

/-!
# Names and what they stand for

A frame holds the declarations of one block, each under its own name; a symbol table is the stack of
the frames that are open. A name is looked up from the innermost frame outwards, so a declaration may
hide one of an enclosing block but no other of its own.
-/

namespace Offside

set_option autoImplicit false

/-- A constant variable is a parameter that may not be assigned to. -/
structure Variable where
  name : String
  type : DataType
  isConstant : Bool
  location : Location
deriving DecidableEq, Repr

structure Constant where
  name : String
  type : DataType
  location : Location
deriving DecidableEq, Repr

/-- Tells apart functions that look the same. -/
abbrev FunctionId := Nat

structure Function where
  id : FunctionId
  name : String
  returns : DataType
  location : Location
deriving DecidableEq, Repr

/-- Two functions that differ at most in their identity. -/
def Function.alike (f g : Function) : Bool :=
  f.name == g.name && f.returns == g.returns && f.location == g.location

inductive Identifier where
  | var (v : Variable)
  | constant (c : Constant)
  | function (f : Function)
deriving DecidableEq, Repr

namespace Identifier

def name : Identifier → String
  | var v => v.name
  | constant c => c.name
  | function f => f.name

/-- Of a function the type of its result. -/
def type : Identifier → DataType
  | var v => v.type
  | constant c => c.type
  | function f => f.returns

def location : Identifier → Location
  | var v => v.location
  | constant c => c.location
  | function f => f.location

/-- Whether the name may never be assigned to. -/
def isConstant : Identifier → Bool
  | var v => v.isConstant
  | constant _ | function _ => true

def alike : Identifier → Identifier → Bool
  | var v, var w => v == w
  | constant c, constant d => c == d
  | function f, function g => f.alike g
  | _, _ => false

end Identifier

/-- The declarations of one block, in their order. -/
abbrev Frame := List Identifier

namespace Frame

def lookup? (name : String) (frame : Frame) : Option Identifier :=
  frame.find? fun i => i.name == name

def names (frame : Frame) : List String := frame.map Identifier.name

/-- Frames are compared as maps from names: the order of the declarations does not count. -/
def alike (a b : Frame) : Bool :=
  a.length == b.length && a.all fun i =>
    match lookup? i.name b with
    | some j => i.alike j
    | none => false

/-- The declarations by name, in the order of code points. -/
def sorted (frame : Frame) : Frame := frame.mergeSort fun i j => i.name ≤ j.name

end Frame

/-- The innermost frame comes first. -/
structure SymbolTable where
  frames : List Frame
deriving DecidableEq, Repr

namespace SymbolTable

def empty : SymbolTable := ⟨[]⟩

def depth (t : SymbolTable) : Nat := t.frames.length

/-- Opens `frame` as the innermost one, with the declarations that it has already. -/
def reopen (frame : Frame) (t : SymbolTable) : SymbolTable := ⟨frame :: t.frames⟩

def openFrame (t : SymbolTable) : SymbolTable := t.reopen []

/-- The innermost frame, and the table without it. -/
def close (t : SymbolTable) : Option Frame × SymbolTable := (t.frames.head?, ⟨t.frames.tail⟩)

/-- Fails if no frame is open or the innermost one has the name already. -/
def declare? (i : Identifier) (t : SymbolTable) : Option SymbolTable :=
  match t.frames with
  | [] => none
  | frame :: outer =>
    if (Frame.lookup? i.name frame).isSome then none else some ⟨(frame ++ [i]) :: outer⟩

def lookup? (name : String) (t : SymbolTable) : Option Identifier :=
  t.frames.findSome? (Frame.lookup? name)

theorem close_reopen (frame : Frame) (t : SymbolTable) :
    (t.reopen frame).close = (some frame, t) := rfl

theorem lookup?_reopen (name : String) (frame : Frame) (t : SymbolTable) :
    (t.reopen frame).lookup? name = (Frame.lookup? name frame).or (t.lookup? name) := by
  simp only [lookup?, reopen, List.findSome?_cons]
  cases Frame.lookup? name frame <;> rfl

end SymbolTable

end Offside
