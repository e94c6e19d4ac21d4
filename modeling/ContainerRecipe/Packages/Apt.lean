import ContainerRecipe.Packages.Request
import ContainerRecipe.Text.Parts

namespace ContainerRecipe.Apt

inductive Step where
  | update
  | install (packages : List String)
  | addKey (url : String)
  | addPpa (ppa : String)
  | addRepository (repository : String)
  | cleanUp
  deriving DecidableEq, Repr

def sourcesList : String := "/etc/apt/sources.list.d/stagefile.list"

def isUrl (repository : String) : Bool :=
  Text.startsWith "http://" repository || Text.startsWith "https://" repository

def Step.text : Step → String
  | .update => "apt-get update -y"
  | .install packages =>
    installLine "DEBIAN_FRONTEND=noninteractive apt-get install -y --no-install-recommends" packages
  | .addKey url => "wget -qO - " ++ url ++ " | apt-key add -"
  | .addPpa ppa => "apt-add-repository " ++ ppa ++ " -y"
  | .addRepository repository =>
    if isUrl repository then "wget -qO - " ++ repository ++ " >> " ++ sourcesList
    else "echo \"" ++ repository ++ "\" >> " ++ sourcesList
  | .cleanUp => "rm -rf /var/lib/apt/lists/*"

def keyTools : List String := ["apt-transport-https", "ca-certificates", "gnupg", "wget"]

def ppaTools : List String := ["software-properties-common"]

def keySteps (keys : List String) : List Step :=
  if keys.isEmpty then [] else [.update, .install keyTools] ++ keys.map .addKey

-- The lists are fresh already when keys were added.
def ppaSteps (keys ppas : List String) : List Step :=
  if ppas.isEmpty then []
  else (if keys.isEmpty then [.update] else []) ++ [.install ppaTools] ++ ppas.map .addPpa

def installSteps (packages : List String) : List Step :=
  if packages.isEmpty then [] else [.update, .install packages]

def steps (r : PackageRequest) : List Step :=
  let setup := keySteps r.aptKeys ++ ppaSteps r.aptKeys r.aptPpas ++
    r.aptRepositories.map .addRepository
  let packages := r.packages .deb
  if setup.isEmpty && packages.isEmpty then [] else setup ++ installSteps packages ++ [.cleanUp]

def commands (r : PackageRequest) : List String := (steps r).map Step.text

end ContainerRecipe.Apt
