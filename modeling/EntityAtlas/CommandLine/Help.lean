import EntityAtlas.CommandLine.Word
import EntityAtlas.Settings

/-!
# Usage and help texts
-/

namespace EntityAtlas.CommandLine

def program : String := "entity-metadata"

/-- Lines, each with its end. -/
def lines (texts : List String) : String :=
  String.join (texts.map (· ++ "\n"))

/-- The level names between braces. -/
def levelSet : String :=
  "\x7b" ++ ",".intercalate (Java.Level.all.map (·.name)) ++ "\x7d"

/-- How the program is called. -/
def usage : String :=
  lines [
    "usage: " ++ program ++ " [-h] [-b BASE_DIR] [-s SOURCE_DIR] [-o OUTPUT_DIR]",
    "                       [-l " ++ levelSet ++ "] [-g GENERATOR]",
    "                       [-v]",
    "                       package_name"]

def helpText : String :=
  usage ++ lines [
    "",
    "Generate static metadata classes for @Table entities of a Java package.",
    "",
    "positional arguments:",
    "  package_name          Package to scan, dot or slash delimited (e.g.",
    "                        com.example.model)",
    "",
    "options:",
    "  -h, --help            show this help message and exit",
    "  -b BASE_DIR, --base-dir BASE_DIR",
    "                        Project base directory (default: current directory)",
    "  -s SOURCE_DIR, --source-dir SOURCE_DIR",
    "                        Java source directory relative to the base directory",
    "                        (default: " ++ Settings.standardSources ++ ")",
    "  -o OUTPUT_DIR, --output-dir OUTPUT_DIR",
    "                        Directory receiving the generated sources",
    "  -l " ++ levelSet ++ ", --language-level " ++ levelSet,
    "                        Java language level used to parse sources (default:",
    "                        " ++ Java.Level.standard.name ++ ")",
    "  -g GENERATOR, --generator GENERATOR",
    "                        Metadata generator to use (default: " ++ Settings.standardGenerator ++ ")",
    "  -v, --verbose         Enable debug logging",
    "",
    "Examples:",
    "  " ++ program ++ " com.example.model                      # scan ./src/main/java",
    "  " ++ program ++ " com/example/model -b ./service -o target/generated-sources",
    "  " ++ program ++ " com.example.model -l JAVA_8            # legacy syntax level",
    "        "]

/-- What is shown when a command line is refused. -/
def refusalText (r : Refusal) : String :=
  usage ++ program ++ ": error: " ++ r.message ++ "\n"

end EntityAtlas.CommandLine
