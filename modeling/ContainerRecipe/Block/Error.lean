import ContainerRecipe.NameError
import ContainerRecipe.Warning

namespace ContainerRecipe

inductive BlockError where
  | missingParameter (block parameter : String)
  | licenseNotAccepted (block : String)
  | noCompiler (block : String)
  | malformedRelease (block version : String)
  | unknownArchive (block file : String)
  deriving DecidableEq, Repr

def BlockError.message : BlockError → String
  | .missingParameter block parameter =>
    block ++ ": missing required parameter '" ++ parameter ++ "'"
  | .licenseNotAccepted block =>
    block ++ ": the license agreement was not accepted (set eula = true)"
  | .noCompiler block => block ++ ": at least one of cc, cxx and fortran must be enabled"
  | .malformedRelease block version =>
    block ++ ": version must look like YY.M, got '" ++ version ++ "'"
  | .unknownArchive block file => block ++ ": unrecognised archive format: " ++ file

inductive LicensePolicy where
  | fatal
  | warn
  deriving DecidableEq, Repr

namespace LicensePolicy

def all : List LicensePolicy := [.fatal, .warn]

def text : LicensePolicy → String
  | .fatal => "fatal"
  | .warn => "warn"

def parse (s : String) : Except NameError LicensePolicy :=
  match all.find? (·.text = s.toLower) with
  | some policy => .ok policy
  | none => .error (.unknownLicensePolicy s)

def check (policy : LicensePolicy) (block : String) (accepted : Bool) : Outcome BlockError Unit :=
  if accepted then pure ()
  else match policy with
    | .fatal => throw (.licenseNotAccepted block)
    | .warn => .warn (.licenseNotAccepted block)

end LicensePolicy

end ContainerRecipe
