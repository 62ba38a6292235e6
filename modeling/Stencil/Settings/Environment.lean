import Stencil.Settings.Basic

/-!
# Settings from the environment

Each setting but the extra ones has a variable, and a variable that is set takes the place of what
the settings held. No value is refused: a truth value is false unless it says otherwise, and lists
are separated by commas.
-/

namespace Stencil

/-- The variables that are set, with their values. -/
abbrev Environment := List (Text × Text)

namespace Environment

/-- The value of the variable of a setting. -/
def get? (environment : Environment) (setting : String) : Option Text :=
  environment.lookup ("NELUMBO_".toList ++ setting.toList)

/-- Whether the text says yes. -/
def saysYes (t : Text) : Bool :=
  ["true".toList, "1".toList, "yes".toList].contains (Text.toLower t)

/-- The items of a list, without blanks around them; empty ones are dropped. -/
def items (t : Text) : List Text :=
  ((Text.splitOn ',' t).map Text.trim).filter (!·.isEmpty)

end Environment

/-- The settings with the variables of the environment in place of what they held. -/
def Settings.override (settings : Settings) (environment : Environment) : Settings where
  debug := ((environment.get? "DEBUG").map Environment.saysYes).getD settings.debug
  templateDir := (environment.get? "TEMPLATE_DIR").getD settings.templateDir
  templateExtension := (environment.get? "TEMPLATE_EXTENSION").getD settings.templateExtension
  includesDir := ((environment.get? "INCLUDES_DIR").map Environment.items).getD settings.includesDir
  errorDir := (environment.get? "ERROR_DIR").getD settings.errorDir
  staticUrl := (environment.get? "STATIC_URL").getD settings.staticUrl
  logLevel := (environment.get? "LOG_LEVEL").getD settings.logLevel
  extra := settings.extra

end Stencil
