namespace ExplicitInit

/-- The names that normalization writes into a class, and whether it respells literals. -/
structure Options where
  memoryHook : String
  classSetup : String
  defaultSelector : String
  respellLiterals : Bool
deriving DecidableEq

def Options.standard : Options :=
  ⟨"JreMemDebugAdd", "initialize", "init", true⟩

instance : Inhabited Options := ⟨.standard⟩

end ExplicitInit
