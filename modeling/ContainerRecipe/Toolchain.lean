import ContainerRecipe.Datum.Codec
import ContainerRecipe.Shell.Words
import ContainerRecipe.Warning

namespace ContainerRecipe

inductive ToolVariable where
  | cc
  | cflags
  | cppflags
  | cudaHome
  | cxx
  | cxxflags
  | f77
  | f90
  | fc
  | fcflags
  | fflags
  | flibs
  | ldLibraryPath
  | ldflags
  | libs
  deriving DecidableEq, Repr

namespace ToolVariable

def all : List ToolVariable :=
  [.cc, .cflags, .cppflags, .cudaHome, .cxx, .cxxflags, .f77, .f90, .fc, .fcflags, .fflags, .flibs,
    .ldLibraryPath, .ldflags, .libs]

theorem mem_all (v : ToolVariable) : v ∈ all := by cases v <;> decide

def text : ToolVariable → String
  | .cc => "CC"
  | .cflags => "CFLAGS"
  | .cppflags => "CPPFLAGS"
  | .cudaHome => "CUDA_HOME"
  | .cxx => "CXX"
  | .cxxflags => "CXXFLAGS"
  | .f77 => "F77"
  | .f90 => "F90"
  | .fc => "FC"
  | .fcflags => "FCFLAGS"
  | .fflags => "FFLAGS"
  | .flibs => "FLIBS"
  | .ldLibraryPath => "LD_LIBRARY_PATH"
  | .ldflags => "LDFLAGS"
  | .libs => "LIBS"

def parse (s : String) : Except NameError ToolVariable :=
  match all.find? (·.text.toLower = s.toLower) with
  | some v => .ok v
  | none => .error (.unknownVariable s)

end ToolVariable

@[ext] structure Toolchain where
  cc : Option String := none
  cflags : Option String := none
  cppflags : Option String := none
  cudaHome : Option String := none
  cxx : Option String := none
  cxxflags : Option String := none
  f77 : Option String := none
  f90 : Option String := none
  fc : Option String := none
  fcflags : Option String := none
  fflags : Option String := none
  flibs : Option String := none
  ldLibraryPath : Option String := none
  ldflags : Option String := none
  libs : Option String := none
  deriving DecidableEq, Repr

namespace Toolchain

instance : EmptyCollection Toolchain := ⟨{}⟩
instance : Inhabited Toolchain := ⟨∅⟩

def get? (t : Toolchain) : ToolVariable → Option String
  | .cc => t.cc
  | .cflags => t.cflags
  | .cppflags => t.cppflags
  | .cudaHome => t.cudaHome
  | .cxx => t.cxx
  | .cxxflags => t.cxxflags
  | .f77 => t.f77
  | .f90 => t.f90
  | .fc => t.fc
  | .fcflags => t.fcflags
  | .fflags => t.fflags
  | .flibs => t.flibs
  | .ldLibraryPath => t.ldLibraryPath
  | .ldflags => t.ldflags
  | .libs => t.libs

def put (t : Toolchain) (v : ToolVariable) (value : Option String) : Toolchain :=
  match v with
  | .cc => { t with cc := value }
  | .cflags => { t with cflags := value }
  | .cppflags => { t with cppflags := value }
  | .cudaHome => { t with cudaHome := value }
  | .cxx => { t with cxx := value }
  | .cxxflags => { t with cxxflags := value }
  | .f77 => { t with f77 := value }
  | .f90 => { t with f90 := value }
  | .fc => { t with fc := value }
  | .fcflags => { t with fcflags := value }
  | .fflags => { t with fflags := value }
  | .flibs => { t with flibs := value }
  | .ldLibraryPath => { t with ldLibraryPath := value }
  | .ldflags => { t with ldflags := value }
  | .libs => { t with libs := value }

def set (t : Toolchain) (v : ToolVariable) (value : String) : Toolchain := t.put v (some value)

def isEmpty (t : Toolchain) : Bool := ToolVariable.all.all fun v => (t.get? v).isNone

def clashes (a b : Toolchain) (v : ToolVariable) : Bool :=
  (a.get? v).isSome && (b.get? v).isSome && a.get? v != b.get? v

-- Takes over one variable of `b` if it is set there. Replacing another value of `a` is told.
def takeOver (a b next : Toolchain) (v : ToolVariable) : Logged Toolchain :=
  match b.get? v with
  | some value => do
    if a.clashes b v then Logged.warn (.variableOverwritten v.text)
    return next.set v value
  | none => pure next

def overlay (a b : Toolchain) : Logged Toolchain := ToolVariable.all.foldlM (takeOver a b) a

def fill (defaults next : Toolchain) (v : ToolVariable) : Toolchain :=
  match next.get? v, defaults.get? v with
  | none, some value => next.set v value
  | _, _ => next

def fillUnset (a defaults : Toolchain) : Toolchain := ToolVariable.all.foldl (fill defaults) a

def settings (t : Toolchain) : List (String × String) :=
  ToolVariable.all.filterMap fun v => (t.get? v).map (v.text, ·)

def assignments (t : Toolchain) : String :=
  " ".intercalate (t.settings.map fun (name, value) => name ++ "=" ++ Shell.quoteWord value)

def layout : Layout Toolchain where
  blank := ∅
  fields :=
    [.optional "CC" .text cc fun value t => { t with cc := value },
      .optional "CFLAGS" .text cflags fun value t => { t with cflags := value },
      .optional "CPPFLAGS" .text cppflags fun value t => { t with cppflags := value },
      .optional "CUDA_HOME" .text cudaHome fun value t => { t with cudaHome := value },
      .optional "CXX" .text cxx fun value t => { t with cxx := value },
      .optional "CXXFLAGS" .text cxxflags fun value t => { t with cxxflags := value },
      .optional "F77" .text f77 fun value t => { t with f77 := value },
      .optional "F90" .text f90 fun value t => { t with f90 := value },
      .optional "FC" .text fc fun value t => { t with fc := value },
      .optional "FCFLAGS" .text fcflags fun value t => { t with fcflags := value },
      .optional "FFLAGS" .text fflags fun value t => { t with fflags := value },
      .optional "FLIBS" .text flibs fun value t => { t with flibs := value },
      .optional "LD_LIBRARY_PATH" .text ldLibraryPath fun value t => { t with ldLibraryPath := value },
      .optional "LDFLAGS" .text ldflags fun value t => { t with ldflags := value },
      .optional "LIBS" .text libs fun value t => { t with libs := value }]

end Toolchain

end ContainerRecipe
