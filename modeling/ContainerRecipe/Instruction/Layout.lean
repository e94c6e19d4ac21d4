import ContainerRecipe.Datum.Codec
import ContainerRecipe.Instruction

namespace ContainerRecipe

namespace Codec

def texts : Codec (List String) := text.list
def version : Codec Version := word Version.text Version.parse
def distribution : Codec Distribution := word Distribution.text Distribution.parse
def packageFamily : Codec PackageFamily := word PackageFamily.text PackageFamily.parse
def architecture : Codec Architecture := word Architecture.text Architecture.parse
def release : Codec Release := word Release.text Release.parse

end Codec

namespace BaseImage

def layout : Layout BaseImage where
  blank := { image := "" }
  fields :=
    [.required "image" .text image fun v s => { s with image := v },
      .optional "stage" .text stage fun v s => { s with stage := v },
      .optional "distro" .release release fun v s => { s with release := v },
      .optional "arch" .architecture architecture fun v s => { s with architecture := v },
      .default "docker_env" .flag dockerEnvironment fun v s => { s with dockerEnvironment := v },
      .default "bootstrap" .text bootstrap fun v s => { s with bootstrap := v }]

end BaseImage

namespace Shell

def layout : Layout Shell where
  blank := { commands := [] }
  fields :=
    [.required "commands" .texts commands fun v s => { s with commands := v },
      .default "chdir" .flag fromRoot fun v s => { s with fromRoot := v },
      .optional "app" .text app fun v s => { s with app := v }]

end Shell

namespace CopyEntry

def layout : Layout CopyEntry where
  blank := ⟨[], ""⟩
  fields :=
    [.required "sources" .texts sources fun v s => { s with sources := v },
      .required "dest" .text destination fun v s => { s with destination := v }]
  lenient := true

end CopyEntry

namespace Copy

def layout : Layout Copy where
  blank := { entries := [] }
  fields :=
    [.required "entries" CopyEntry.layout.codec.list entries fun v s => { s with entries := v },
      .optional "from" .text source fun v s => { s with source := v },
      .optional "chown" .text owner fun v s => { s with owner := v },
      .unusual "exclude" .texts List.isEmpty exclude fun v s => { s with exclude := v },
      .optional "app" .text app fun v s => { s with app := v }]
  lenient := true

end Copy

namespace Environment

def layout : Layout Environment where
  blank := { bindings := ∅ }
  fields :=
    [.required "variables" .bindings bindings fun v s => { s with bindings := v },
      .default "export" .flag exported fun v s => { s with exported := v },
      .optional "app" .text app fun v s => { s with app := v }]

end Environment

namespace Labels

def layout : Layout Labels where
  blank := { bindings := ∅ }
  fields :=
    [.required "labels" .bindings bindings fun v s => { s with bindings := v },
      .optional "app" .text app fun v s => { s with app := v }]

end Labels

namespace Comment

def layout : Layout Comment where
  blank := { text := "" }
  fields :=
    [.required "text" .text text fun v s => { s with text := v },
      .unusual "reformat" .flag id reformat fun v s => { s with reformat := v },
      .optional "app" .text app fun v s => { s with app := v }]

end Comment

namespace Verbatim

def layout : Layout Verbatim where
  blank := {}
  fields :=
    [.optional "docker" .text docker fun v s => { s with docker := v },
      .optional "singularity" .text singularity fun v s => { s with singularity := v }]

end Verbatim

namespace Workdir

def layout : Layout Workdir where
  blank := { directory := "" }
  fields :=
    [.required "directory" .text directory fun v s => { s with directory := v },
      .optional "app" .text app fun v s => { s with app := v }]

end Workdir

namespace User

def layout : Layout User where
  blank := ⟨""⟩
  fields := [.required "user" .text name fun v s => { s with name := v }]

end User

namespace Arguments

def layout : Layout Arguments where
  blank := ⟨∅⟩
  fields := [.required "variables" .bindings bindings fun v s => { s with bindings := v }]

end Arguments

namespace Runscript

def layout : Layout Runscript where
  blank := { commands := [] }
  fields :=
    [.required "commands" .texts commands fun v s => { s with commands := v },
      .unusual "exec" .flag id exec fun v s => { s with exec := v },
      .optional "app" .text app fun v s => { s with app := v }]

end Runscript

namespace Fragment

def layout : Layout Fragment where
  blank := {}
  fields :=
    [.optional "docker" .text docker fun v s => { s with docker := v },
      .optional "singularity" .text singularity fun v s => { s with singularity := v }]
  lenient := true

end Fragment

namespace Instruction

def writeFields : Instruction → List (String × Datum)
  | .baseImage p => BaseImage.layout.writeFields p
  | .shell p => Shell.layout.writeFields p
  | .copy p => Copy.layout.writeFields p
  | .environment p => Environment.layout.writeFields p
  | .labels p => Labels.layout.writeFields p
  | .comment p => Comment.layout.writeFields p
  | .verbatim p => Verbatim.layout.writeFields p
  | .workdir p => Workdir.layout.writeFields p
  | .user p => User.layout.writeFields p
  | .arguments p => Arguments.layout.writeFields p
  | .runscript p => Runscript.layout.writeFields p
  | .fragment p => Fragment.layout.writeFields p

def write (p : Instruction) : Datum := .record (("kind", .text p.kind) :: p.writeFields)

def readKind (kind : String) (d : Datum) : Except DecodeError Instruction :=
  match kind with
  | "base_image" => (BaseImage.layout.read d).map .baseImage
  | "shell" => (Shell.layout.read d).map .shell
  | "copy" => (Copy.layout.read d).map .copy
  | "environment" => (Environment.layout.read d).map .environment
  | "label" => (Labels.layout.read d).map .labels
  | "comment" => (Comment.layout.read d).map .comment
  | "raw" => (Verbatim.layout.read d).map .verbatim
  | "workdir" => (Workdir.layout.read d).map .workdir
  | "user" => (User.layout.read d).map .user
  | "arg" => (Arguments.layout.read d).map .arguments
  | "runscript" => (Runscript.layout.read d).map .runscript
  | "blob" => (Fragment.layout.read d).map .fragment
  | _ => .error (.unknownVariant kind)

def read : Datum → Except DecodeError Instruction
  | .record entries => do
    match entries.lookup "kind" with
    | none => throw (.missingField "kind")
    | some d => readKind (← Codec.text.read d) (.record (entries.filter (·.1 != "kind")))
  | .list [] => .error (.missingField "kind")
  | .list (d :: rest) => do readKind (← Codec.text.read d) (.list rest)
  | _ => .error .wrongType

def codec : Codec Instruction := ⟨write, read⟩

end Instruction

end ContainerRecipe
