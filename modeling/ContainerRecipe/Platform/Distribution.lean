import ContainerRecipe.Version

namespace ContainerRecipe

inductive PackageFamily where
  | deb
  | rpm
  deriving DecidableEq, Repr

namespace PackageFamily

def all : List PackageFamily := [.deb, .rpm]

def text : PackageFamily → String
  | .deb => "deb"
  | .rpm => "rpm"

def parse (s : String) : Except NameError PackageFamily :=
  match all.find? (·.text = s.toLower) with
  | some family => .ok family
  | none => .error (.unknownPackageFamily s)

end PackageFamily

inductive Distribution where
  | ubuntu
  | centos
  | rhel
  | rockyLinux
  deriving DecidableEq, Repr

namespace Distribution

def all : List Distribution := [.ubuntu, .centos, .rhel, .rockyLinux]

def text : Distribution → String
  | .ubuntu => "ubuntu"
  | .centos => "centos"
  | .rhel => "rhel"
  | .rockyLinux => "rockylinux"

def packageFamily : Distribution → PackageFamily
  | .ubuntu => .deb
  | .centos | .rhel | .rockyLinux => .rpm

-- Assumed when an image names the distribution without a version.
def defaultVersion : Distribution → Version
  | .ubuntu => ⟨22, 4⟩
  | .centos => ⟨7, 0⟩
  | .rhel | .rockyLinux => ⟨9, 0⟩

-- A version as the distribution itself writes it: Ubuntu pads the month.
def versionLabel (d : Distribution) (v : Version) : String :=
  match d with
  | .ubuntu => Nat.repr v.major.toNat ++ "." ++ Text.twoDigits v.minor.toNat
  | _ => v.text

-- The distribution behind a name in any case of ASCII. Rebuilds of RHEL count as RHEL.
def ofName? (s : String) : Option Distribution :=
  match s.toLower with
  | "ubuntu" => some .ubuntu
  | "centos" => some .centos
  | "rockylinux" => some .rockyLinux
  | "rhel" | "ubi" | "almalinux" => some .rhel
  | _ => none

def parse (s : String) : Except NameError Distribution :=
  match ofName? s with
  | some d => .ok d
  | none => .error (.unsupportedDistribution s)

end Distribution

end ContainerRecipe
