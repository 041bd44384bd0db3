import RequestAuth.Error

/-!
# The surroundings of a program

A `Context` is what credentials are found in: a way to read files and an environment of variables
with a home directory. Each part has a name under which it is shown when debugging. By default
there are no files and the environment is empty.

A variable has a name and a value that are text, and asking for one variable looks at the same list
as asking for all. A process can be given other variables too. Asked for by name they are not found,
as if they were not in the list; but listing all variables would then stop the program, where
`Context.variablesFrom` goes on without them.
-/

namespace RequestAuth

/-- A way to read files. -/
structure FileReader where
  /-- The name shown when debugging. -/
  label : String
  /-- The contents of the file at a path. -/
  read : String → Except Error Bytes

namespace FileReader

/-- No file can be read. -/
def none : FileReader where
  label := "NoopFileRead"
  read _ := .error .noFileReader

/-- Files kept in memory under their exact paths. -/
def ofFiles (files : List (String × Bytes)) : FileReader where
  label := "Files"
  read path := match files.lookup path with
    | some contents => .ok contents
    | Option.none => .error (.unreadableFile path false)

end FileReader

/-- Variables and a home directory. -/
structure Environment where
  /-- The name shown when debugging. -/
  label : String
  /-- The variables under distinct names. -/
  entries : List (String × String)
  /-- The path of the home directory. -/
  home : Option Bytes

/-- No variables and no home directory. -/
def Environment.empty : Environment where
  label := "NoopEnv"
  entries := []
  home := none

/-- Where credentials are found. -/
structure Context where
  /-- A way to read files. -/
  files : FileReader := .none
  /-- The variables and the home directory. -/
  environment : Environment := .empty

namespace Context

/-- The contents of a file. -/
def fileBytes (context : Context) (path : String) : Except Error Bytes :=
  context.files.read path

/-- The contents of a file as text, with a replacement character for each ill-formed stretch. -/
def fileText (context : Context) (path : String) : Except Error String :=
  (context.fileBytes path).map Utf8.lossyText

/-- The value of a variable. -/
def var? (context : Context) (name : String) : Option String :=
  context.environment.entries.lookup name

/-- The variables whose names begin with the given text. -/
def variablesFrom (context : Context) (start : String) : List (String × String) :=
  context.environment.entries.filter fun (name, _) => start.toList.isPrefixOf name.toList

/-- The home directory as text. -/
def home? (context : Context) : Option String :=
  context.environment.home.map Utf8.lossyText

/-- Whether a path begins at the home directory. -/
def beginsAtHome (path : String) : Bool :=
  match path.toList with
  | '~' :: '/' :: _ => true
  | '~' :: '\\' :: _ => true
  | _ => false

/-- A path with the home directory in the place of a tilde at its start; nothing if there is a tilde
and no home directory. -/
def expandHome? (context : Context) (path : String) : Option String :=
  if beginsAtHome path then
    context.home?.map fun home => home ++ String.ofList path.toList.tail
  else some path

/-- The text shown when debugging. -/
def debugText (context : Context) : String :=
  Text.record "Context" [
    ("fs", context.files.label), ("env", context.environment.label)]

end Context

end RequestAuth
