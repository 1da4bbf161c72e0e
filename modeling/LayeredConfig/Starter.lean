import LayeredConfig.FileSystem.Basic

/-!
# Starter files

A small configuration to begin with: a base file and the overlays of two profiles. Files that are
there already stay as they are, unless they are to be replaced.
-/

namespace LayeredConfig.Starter

def base : String :=
  "# Base configuration; activate overlays with YODEL_PROFILES=dev or =prod\n" ++
  "service:\n" ++
  "  name: demo\n" ++
  "  endpoint: $\x7bSERVICE_ENDPOINT:https://api.example.com\x7d\n" ++
  "  timeout: 10\n" ++
  "  retries: 1\n" ++
  "database:\n" ++
  "  host: $\x7bDB_HOST:localhost\x7d\n" ++
  "  port: $\x7bDB_PORT:5432\x7d\n" ++
  "  replicas:\n" ++
  "    - host: replica-a\n" ++
  "    - host: replica-b\n" ++
  "features:\n" ++
  "  tracing: false\n"

def development : String :=
  "# Development overrides\n" ++
  "service:\n" ++
  "  timeout: 30\n" ++
  "features:\n" ++
  "  tracing: true\n"

def production : String :=
  "# Production overrides (formats may be mixed inside one directory)\n" ++
  "[service]\n" ++
  "retries = 5\n" ++
  "endpoint = \"$\x7bSERVICE_ENDPOINT:https://api.example.com/prod\x7d\"\n" ++
  "\n" ++
  "[database]\n" ++
  "host = \"$\x7bDB_HOST:db.internal\x7d\"\n"

def files (baseName : String) : List (String × String) :=
  [(baseName ++ ".yaml", base), (baseName ++ "-dev.yaml", development),
    (baseName ++ "-prod.toml", production)]

/-- The files to be written below a directory, by path. -/
def pending (fs : FileSystem) (destination : FilePath) (baseName : String) (force : Bool) :
    List (String × String) :=
  ((files baseName).map fun f => ((destination.join (FilePath.read f.1)).text, f.2)).filter
    fun f => force || !(fs.isFile f.1 || fs.isDirectory f.1)

end LayeredConfig.Starter
