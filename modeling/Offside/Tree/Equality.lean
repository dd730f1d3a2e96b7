import Offside.Tree.Node

/-!
# Comparing trees

Trees are equal if they have the same shape, values and places. Of two functions the bodies do not
count, and neither does their identity; two references are equal only if they name the same function,
which `same` decides: within one tree by identity, across two trees never.
-/

namespace Offside

set_option autoImplicit false

variable (same : FunctionId → FunctionId → Bool)

mutual

def Node.equal : Node → Node → Bool
  | .literal a, .literal b => a.equal b
  | .var a, .var b => a == b
  | .constant a, .constant b => a == b
  | .function f ps _, .function g qs _ => f.alike g && Node.equalAll ps qs
  | .reference f, .reference g => same f.id g.id && f.alike g
  | .unary o a l, .unary p b m => o == p && a.equal b && l == m
  | .binary o a b l, .binary p c d m => o == p && a.equal c && b.equal d && l == m
  | .scope s, .scope t => s.equal t
  | .branch c s e l, .branch d t f m => c.equal d && s.equal t && Scope.equalOption e f && l == m
  | .whileLoop c s l, .whileLoop d t m => c.equal d && s.equal t && l == m
  | .forLoop i c n s l, .forLoop j d k t m =>
    Node.equalOption i j && Node.equalOption c d && Node.equalOption n k && s.equal t && l == m
  | .rangeLoop r s l, .rangeLoop q t m => r.equal q && s.equal t && l == m
  | _, _ => false

def Node.equalAll : List Node → List Node → Bool
  | [], [] => true
  | a :: as, b :: bs => a.equal b && Node.equalAll as bs
  | _, _ => false

def Node.equalOption : Option Node → Option Node → Bool
  | none, none => true
  | some a, some b => a.equal b
  | _, _ => false

def Scope.equal : Scope → Scope → Bool
  | ⟨ns, f⟩, ⟨ms, g⟩ => Node.equalAll ns ms && f.alike g

def Scope.equalOption : Option Scope → Option Scope → Bool
  | none, none => true
  | some a, some b => a.equal b
  | _, _ => false

end

/-- Whether references of one tree name the same function. -/
def sameId (a b : FunctionId) : Bool := a == b

/-- No function of one tree is a function of another one. -/
def neverSame (_ _ : FunctionId) : Bool := false

end Offside
