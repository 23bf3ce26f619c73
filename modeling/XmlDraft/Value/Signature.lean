/-!
# Signatures

The parameters of a function and what they say about calls: how many arguments a call
must give by position, and whether a number of them is accepted.
-/

namespace XmlDraft

/-- A kind of parameter. -/
inductive Parameter where
  /-- Given by position or name, without a default. -/
  | required
  /-- Given by position or name, with a default. -/
  | optional
  /-- Given by position only, without a default. -/
  | positional
  /-- Given by position only, with a default. -/
  | positionalOptional
  /-- Takes all further arguments given by position. -/
  | rest
  /-- Given by name only, without a default. -/
  | named
  /-- Given by name only, with a default. -/
  | namedOptional
  /-- Takes all further arguments given by name. -/
  | namedRest
deriving DecidableEq, Repr

namespace Parameter

/-- Whether a parameter can be given by position, other than by taking all the rest. -/
def byPosition : Parameter → Bool
  | required => true
  | optional => true
  | positional => true
  | positionalOptional => true
  | _ => false

/-- Whether a parameter must be given, and can be given by position. -/
def isNeeded : Parameter → Bool
  | required => true
  | positional => true
  | _ => false

end Parameter

namespace Signature

/-- The number of parameters that must be given by position once the first `given` are. -/
def needed (ps : List Parameter) (given : Nat) : Nat :=
  ((ps.filter Parameter.byPosition).drop given).countP Parameter.isNeeded

/-- Whether a number of arguments does not exceed the places for them. -/
def hasPlaces (ps : List Parameter) (count : Nat) : Bool :=
  count ≤ ps.countP Parameter.byPosition || .rest ∈ ps

/-- Whether a call with a number of arguments, all by position, gives every parameter
that needs one and no more than there are. -/
def binds (ps : List Parameter) (count : Nat) : Bool :=
  hasPlaces ps count && needed ps count = 0 && .named ∉ ps

/-- The number of arguments that a fragment with these parameters takes: none, one, or
no such number when more are needed.  Arguments given in advance beyond the places for
them leave no signature to look at, and count as taking none. -/
def arity? (ps : List Parameter) (given : Nat) : Option Nat :=
  if hasPlaces ps given then
    if needed ps given ≤ 1 then some (needed ps given) else none
  else some 0

end Signature

end XmlDraft
