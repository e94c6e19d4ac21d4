import ContainerRecipe.Packages.Request
import ContainerRecipe.Target

namespace ContainerRecipe.Yum

inductive Step where
  | importKey (url : String)
  | installUtilities (yum4 : Bool)
  | addRepository (url : String)
  | enableEpel
  | enablePowertools (repository : String)
  | enableScl
  | install (packages : List String)
  | cleanUp
  deriving DecidableEq, Repr

def Step.text : Step → String
  | .importKey url => "rpm --import " ++ url
  | .installUtilities yum4 => "yum install -y " ++ if yum4 then "dnf-utils" else "yum-utils"
  | .addRepository url => "yum-config-manager --add-repo " ++ url
  | .enableEpel => "yum install -y epel-release"
  | .enablePowertools repository =>
    "yum install -y dnf-plugins-core && yum config-manager --set-enabled " ++ repository
  | .enableScl => "yum install -y centos-release-scl"
  | .install packages => installLine "yum install -y" packages
  | .cleanUp => "rm -rf /var/cache/yum/*"

-- Yum is of the fourth series from release eight on, unless the request tells.
def isYum4 (t : Target) (r : PackageRequest) : Bool := r.yum4.getD (8 ≤ t.version.major)

def repositorySteps (yum4 : Bool) (repositories : List String) : List Step :=
  if repositories.isEmpty then []
  else .installUtilities yum4 :: repositories.map .addRepository

-- The repository was renamed in the ninth series.
def powertoolsRepository (t : Target) : String :=
  if 9 ≤ t.version.major then "crb" else "powertools"

def powertoolsSteps (t : Target) (r : PackageRequest) : Logged (List Step) :=
  if !r.powertools then pure []
  else if isYum4 t r then pure [.enablePowertools (powertoolsRepository t)]
  else do
    Logged.warn .powertoolsUnavailable
    return []

def installSteps (packages : List String) : List Step :=
  if packages.isEmpty then [] else [.install packages]

def steps (t : Target) (r : PackageRequest) : Logged (List Step) := do
  let powertools ← powertoolsSteps t r
  let setup := r.yumKeys.map .importKey ++ repositorySteps (isYum4 t r) r.yumRepositories ++
    (if r.epel then [.enableEpel] else []) ++ powertools ++ (if r.scl then [.enableScl] else [])
  let packages := r.packages .rpm
  return if setup.isEmpty && packages.isEmpty then []
    else setup ++ installSteps packages ++ [.cleanUp]

def commands (t : Target) (r : PackageRequest) : Logged (List String) := do
  return (← steps t r).map Step.text

end ContainerRecipe.Yum
