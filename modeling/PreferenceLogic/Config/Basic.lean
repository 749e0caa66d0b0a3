import PreferenceLogic.Text.Decimal

/-!
# Configuration

Two parameters govern how a problem is evaluated and asked about. An update gives values to some of
them; later updates take precedence.
-/

namespace PreferenceLogic

/-- The parameters. -/
structure Config where
  /-- The largest number of attributes accepted. -/
  maxAttributes : Nat := 16
  /-- Where the sampling of objects starts. -/
  seed : Option Nat := none
deriving DecidableEq, Repr

namespace Config

/-- No setting allows more attributes than this. -/
def attributeCeiling : Nat := 63

/-- The number of attributes that is accepted. -/
def attributeLimit (c : Config) : Nat := min c.maxAttributes attributeCeiling

/-- Values for some parameters. -/
structure Update where
  maxAttributes : Option Nat := none
  seed : Option Nat := none
deriving DecidableEq, Repr

/-- One update after another: the later value of a parameter counts. -/
def Update.merge (earlier later : Update) : Update where
  maxAttributes := later.maxAttributes.or earlier.maxAttributes
  seed := later.seed.or earlier.seed

/-- The parameters with the values of an update. -/
def apply (c : Config) (update : Update) : Config where
  maxAttributes := update.maxAttributes.getD c.maxAttributes
  seed := update.seed.or c.seed

theorem apply_merge (c : Config) (earlier later : Update) :
    c.apply (earlier.merge later) = (c.apply earlier).apply later := by
  obtain ⟨_ | _, _ | _⟩ := later <;> simp [apply, Update.merge]

/-- What the parameters mean and what they are when nothing is set. -/
def help : Text :=
  ("max_attributes: Largest number of attributes accepted. " ++
    "The object space has 2^n elements, at most 2^63 on 64-bit targets. (Default: 16)\n" ++
    "seed: Seed for sampling objects to compare. " ++
    "Sampling is seeded from entropy when absent. (Default: none)\n").toList

end Config

end PreferenceLogic
