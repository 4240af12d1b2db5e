/-! The help of the command.
It names the operands and every option, each with what it is for. -/
namespace TidySql.Help

/-- An option as the help tells of it. -/
structure Entry where
  letter : Option Char := none
  name : String
  /-- The name of the value that follows the option, if it takes one. -/
  value : Option String := none
  about : String

def entries : List Entry := [
  { name := "indent-width", value := some "INDENT_WIDTH", about := "Spaces per indentation level" },
  { name := "keyword-case", value := some "KEYWORD_CASE"
    about := "Casing for recognized keywords [possible values: upper, lower]" },
  { name := "check", about := "Check formatting without writing changes" },
  { name := "diff", about := "Show formatting diff" },
  { name := "fast", about := "Skip safety equivalence check (faster)" },
  { name := "exclude", value := some "EXCLUDE", about := "Glob patterns to exclude" },
  { letter := some 'v', name := "verbose", about := "Verbose output" },
  { letter := some 'q', name := "quiet", about := "Quiet output (errors only)" },
  { name := "no-progressbar", about := "Disable progress bar" },
  { name := "force-color", about := "Force color output" },
  { name := "no-color", about := "Disable color output" },
  { letter := some 't', name := "threads", value := some "THREADS"
    about := "Number of threads for parallel processing (0 = all cores) [default: 0]" },
  { name := "single-process", about := "Disable multi-threaded processing" },
  { name := "config", value := some "CONFIG", about := "Path to config file (sqlshow.toml)" },
  { letter := some 'h', name := "help", about := "Print help" },
  { letter := some 'V', name := "version", about := "Print version" }]

/-- The names of an option on a line, and below them what it is for. -/
def Entry.text (e : Entry) : String :=
  let letter := e.letter.elim "    " fun c => "-" ++ String.ofList [c] ++ ", "
  let value := e.value.elim "" fun name => " <" ++ name ++ ">"
  "  " ++ letter ++ "--" ++ e.name ++ value ++ "\n          " ++ e.about ++ "\n"

def text : String :=
  "Re-lays out SQL captured from live query logs into readable, consistently indented text.\n\n" ++
  "Usage: sqlshow [OPTIONS] <FILES>...\n\n" ++
  "Arguments:\n" ++
  "  <FILES>...  Files or directories to format. Use \"-\" to read from stdin\n\n" ++
  "Options:\n" ++
  "".intercalate (entries.map Entry.text)

end TidySql.Help
