import ContainerRecipe.Instruction.Layout
import ContainerRecipe.Target

namespace ContainerRecipe

namespace Codec

def format : Codec Format := word Format.text Format.parse

def licensePolicy : Codec LicensePolicy := choice LicensePolicy.all LicensePolicy.text

end Codec

structure Options where
  format : Format := .docker
  singularityVersion : Version := Target.defaultSingularityVersion
  workingDirectory : String := Target.defaultWorkingDirectory
  licensePolicy : LicensePolicy := .fatal
  userarg : Bindings := ∅
  deriving DecidableEq, Repr

def Options.template (o : Options) : Target :=
  { Target.ofFormat o.format with
    singularityVersion := o.singularityVersion
    workingDirectory := o.workingDirectory
    licensePolicy := o.licensePolicy }

end ContainerRecipe
