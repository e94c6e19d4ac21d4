namespace ContainerRecipe

inductive NameError where
  | unsupportedDistribution (word : String)
  | unknownArchitecture (word : String)
  | unknownPackageFamily (word : String)
  | invalidVersion (word : String)
  | unknownFormat (word : String)
  | unknownLicensePolicy (word : String)
  | unknownVariable (word : String)
  deriving DecidableEq, Repr

def NameError.message : NameError → String
  | .unsupportedDistribution word => "unsupported distribution: " ++ word
  | .unknownArchitecture word => "unknown CPU architecture: " ++ word
  | .unknownPackageFamily word => "unknown package type: " ++ word ++ " (expected 'deb' or 'rpm')"
  | .invalidVersion word => "invalid version: " ++ word
  | .unknownFormat word =>
    "unknown container type: " ++ word ++ " (expected docker, singularity or bash)"
  | .unknownLicensePolicy word =>
    "unknown license policy: " ++ word ++ " (expected 'fatal' or 'warn')"
  | .unknownVariable word => "unknown toolchain variable: " ++ word

end ContainerRecipe
