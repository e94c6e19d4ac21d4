namespace ContainerRecipe.Script

inductive Method where
  | shell
  | copy
  | environment
  | label
  | arg
  | comment
  | raw
  | workdir
  | user
  | runscript
  | blob
  | packages
  | gnu
  | nvhpc
  | autotools
  | runtime
  deriving DecidableEq, Repr

namespace Method

def all : List Method :=
  [.shell, .copy, .environment, .label, .arg, .comment, .raw, .workdir, .user, .runscript, .blob,
    .packages, .gnu, .nvhpc, .autotools, .runtime]

def text : Method → String
  | .shell => "shell"
  | .copy => "copy"
  | .environment => "environment"
  | .label => "label"
  | .arg => "arg"
  | .comment => "comment"
  | .raw => "raw"
  | .workdir => "workdir"
  | .user => "user"
  | .runscript => "runscript"
  | .blob => "blob"
  | .packages => "packages"
  | .gnu => "gnu"
  | .nvhpc => "nvhpc"
  | .autotools => "generic_autotools"
  | .runtime => "runtime"

end Method

inductive StageField where
  | name
  | distribution
  | version
  | architecture
  | packageFamily
  | format
  | platform
  deriving DecidableEq, Repr

namespace StageField

def all : List StageField :=
  [.name, .distribution, .version, .architecture, .packageFamily, .format, .platform]

def text : StageField → String
  | .name => "name"
  | .distribution => "distro"
  | .version => "distro_version"
  | .architecture => "arch"
  | .packageFamily => "package_type"
  | .format => "format"
  | .platform => "platform"

end StageField

inductive Function where
  | stage
  | dofile
  | require
  | loadfile
  | method (m : Method)
  | library (name : String)
  | made (number : Nat)
  deriving DecidableEq, Repr

def baseFunctions : List String :=
  ["assert", "collectgarbage", "error", "getmetatable", "ipairs", "load", "next", "pairs", "pcall", "print",
    "rawequal", "rawget", "rawlen", "rawset", "select", "setmetatable", "tonumber", "tostring", "type", "warn",
    "xpcall"]

-- The libraries that a script can name, with their functions. The one of texts stands first.
def libraries : List (String × List String) :=
  [("string",
      ["byte", "char", "dump", "find", "format", "gmatch", "gsub", "len", "lower", "match", "pack",
        "packsize", "rep", "reverse", "sub", "unpack", "upper"]),
    ("table", ["concat", "insert", "move", "pack", "remove", "sort", "unpack"]),
    ("math",
      ["abs", "acos", "asin", "atan", "ceil", "cos", "deg", "exp", "floor", "fmod", "log", "max",
        "min", "modf", "rad", "random", "randomseed", "sin", "sqrt", "tan", "tointeger", "type",
        "ult"]),
    ("os",
      ["clock", "date", "difftime", "execute", "exit", "getenv", "remove", "rename", "setlocale",
        "time", "tmpname"]),
    ("io",
      ["close", "flush", "input", "lines", "open", "output", "popen", "read", "tmpfile", "type",
        "write"]),
    ("coroutine",
      ["close", "create", "isyieldable", "resume", "running", "status", "wrap", "yield"]),
    ("utf8", ["char", "codepoint", "codes", "len", "offset"])]

end ContainerRecipe.Script
