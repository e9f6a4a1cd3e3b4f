import DocHarvest.Bytes

/-!
# Environments

The variables that a program is started with.
-/

namespace DocHarvest

/-- Variables with their values. -/
abbrev Environment := List (Bytes × Bytes)

/-- The value of a variable; one that is not set counts as empty. -/
def Environment.get (env : Environment) (name : Bytes) : Bytes :=
  (env.lookup name).getD []

end DocHarvest
