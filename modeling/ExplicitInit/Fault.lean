import ExplicitInit.Span

namespace ExplicitInit

/-- Why a class cannot be normalized. Each breaks a promise of the front end; the first name is the
name of the class. -/
inductive Fault where
  | undeclaredSibling (owner selector : String)
  /-- The selector is that of the constructor from which the chain was followed. -/
  | delegationCycle (owner selector : String)
  | unboundName (owner name : String) (span : Span)
  | noEnclosingInstance (owner enclosing : String)
  | interfaceConstructor (owner : String)
  | unknownBoundary (owner selector : String)
deriving DecidableEq

def Fault.message : Fault → String
  | undeclaredSibling owner selector =>
    "Internal error: constructor of " ++ owner ++ " delegates to unknown constructor '" ++
      selector ++ "'"
  | delegationCycle owner selector =>
    "Internal error: constructor '" ++ selector ++ "' of " ++ owner ++
      " is part of a delegation cycle"
  | unboundName owner name _ =>
    "Internal error: unbound name '" ++ name ++ "' in an initializer of " ++ owner
  | noEnclosingInstance owner enclosing =>
    "Internal error: " ++ owner ++ " reads an enclosing " ++ enclosing ++
      " instance it does not have"
  | interfaceConstructor owner =>
    "Internal error: interface " ++ owner ++ " declares a constructor"
  | unknownBoundary owner selector =>
    "Internal error: lowered constructor '" ++ selector ++ "' of " ++ owner ++
      " has no preamble boundary"

end ExplicitInit
