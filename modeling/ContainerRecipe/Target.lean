import ContainerRecipe.Block.Error
import ContainerRecipe.Format
import ContainerRecipe.Instruction
import ContainerRecipe.Platform

namespace ContainerRecipe

structure Target where
  format : Format
  distribution : Distribution
  version : Version
  architecture : Architecture
  packageFamily : PackageFamily
  singularityVersion : Version
  workingDirectory : String
  licensePolicy : LicensePolicy
  deriving DecidableEq, Repr

namespace Target

-- Assumed when a base image names no distribution.
def fallback : Distribution := .ubuntu

def defaultSingularityVersion : Version := ⟨3, 8⟩

def defaultWorkingDirectory : String := "/var/tmp"

def ofFormat (format : Format) : Target where
  format
  distribution := fallback
  version := fallback.defaultVersion
  architecture := .x86_64
  packageFamily := fallback.packageFamily
  singularityVersion := defaultSingularityVersion
  workingDirectory := defaultWorkingDirectory
  licensePolicy := .fatal

-- The release of a base image: its override, else the one its reference names, else the fallback.
def releaseOf (base : BaseImage) : Logged Release :=
  match base.release.or (Release.infer? base.image) with
  | some release => pure release
  | none => do
    Logged.warn (.unknownDistribution base.image)
    return ⟨fallback, none⟩

def architectureOf (base : BaseImage) : Architecture :=
  (base.architecture.or (Architecture.ofImage? base.image)).getD .x86_64

def settle (t : Target) (base : BaseImage) : Logged Target := do
  let release ← releaseOf base
  return { t with
    distribution := release.distribution
    version := release.versionOrDefault
    architecture := architectureOf base
    packageFamily := release.distribution.packageFamily }

def withPackageFamily (t : Target) (family : Option PackageFamily) : Target :=
  { t with packageFamily := family.getD t.distribution.packageFamily }

def platform (t : Target) : Platform := ⟨t.architecture, t.distribution, t.version⟩

def versionLabel (t : Target) : String := t.distribution.versionLabel t.version

end Target

end ContainerRecipe
