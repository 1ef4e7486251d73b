import JsonBinding.TypeRef.Basic

/-!
# Order of types

Types are ordered by shape first (primitives, classes, arrays, classes with arguments, variables,
wildcards), then by their parts from left to right, names by code points (`TypeRef.cmp`). A set of
types is a list in strictly ascending order (`TypeRef.insert`).
-/

namespace JsonBinding.TypeRef

/-- The place of the shape of a type. -/
def rank : TypeRef → Nat
  | .prim _ => 0
  | .cls _ => 1
  | .array _ => 2
  | .app _ _ => 3
  | .var _ => 4
  | .wildcard => 5

mutual

/-- The order of two types. -/
def cmp : TypeRef → TypeRef → Ordering
  | .prim p, .prim q => compare p.name q.name
  | .cls m, .cls n => compare m.text n.text
  | .array a, .array b => cmp a b
  | .app m as, .app n bs => (compare m.text n.text).then (cmpAll as bs)
  | .var m, .var n => compare m n
  | a, b => compare a.rank b.rank

/-- The order of two lists of types. -/
def cmpAll : List TypeRef → List TypeRef → Ordering
  | [], [] => .eq
  | [], _ :: _ => .lt
  | _ :: _, [] => .gt
  | a :: as, b :: bs => (cmp a b).then (cmpAll as bs)

end

/-- The set with one more type. -/
def insert (t : TypeRef) : List TypeRef → List TypeRef
  | [] => [t]
  | u :: rest =>
    match cmp t u with
    | .lt => t :: u :: rest
    | .eq => u :: rest
    | .gt => u :: insert t rest

/-- The set of some types. -/
def sortedSet (ts : List TypeRef) : List TypeRef := ts.foldl (fun set t => insert t set) []

end JsonBinding.TypeRef
