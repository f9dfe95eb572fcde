import KeyedLocks.CommandLine.Request

/-!
# Help texts
-/

namespace KeyedLocks.CommandLine

def versionText : String := "pessimist 0.1.0\n"

/-- What a command is for, in one line. -/
def CommandName.purpose : CommandName → String
  | .checkConfig => "Validate a backoff policy file"
  | .contend => "Contend for a set of keys from many threads"
  | .deadlock => "Stage a two-thread lock cycle and report its detection"

def helpPurpose : String := "Print this message or the help of the given subcommand(s)"

def formatHelp : String := "Output format [default: text] [possible values: text, json]"

/-- Lines of two columns, the first one as wide as its widest entry. -/
def columns (rows : List (String × String)) : List String :=
  let width := (rows.map (·.1.length)).foldl max 0
  rows.map fun (a, b) => s!"  {a}".pushn ' ' (width - a.length + 2) ++ b

/-- A purpose, the usage line, and sections with their headings. -/
def helpText (purpose usage : String) (sections : List (String × List (String × String))) :
    String :=
  let body := sections.map fun (heading, rows) =>
    "\n".intercalate ((heading ++ ":") :: columns rows)
  "\n\n".intercalate (purpose :: s!"Usage: pessimist {usage}" :: body) ++ "\n"

def helpOption : String × String := ("-h, --help", "Print help")

def formatOption : String × String := ("    --format <FORMAT>", formatHelp)

def Topic.text : Topic → String
  | .program => helpText "Pessimistic lock factory - stress, deadlock, and policy tools"
    "[OPTIONS] <COMMAND>"
    [("Commands",
      [("check-config", CommandName.checkConfig.purpose), ("contend", CommandName.contend.purpose),
        ("deadlock", CommandName.deadlock.purpose),
        ("help", helpPurpose)]),
      ("Options", [formatOption, helpOption, ("-V, --version", "Print version")])]
  | .help => helpText helpPurpose "help [COMMAND]..."
    [("Arguments", [("[COMMAND]...", "Print help for the subcommand(s)")])]
  | .command .checkConfig => helpText CommandName.checkConfig.purpose
    "check-config [OPTIONS] <PATH>"
    [("Arguments",
      [("<PATH>", "TOML file with acquire_attempts, maximum_queued, and spin_time")]),
      ("Options", [formatOption, helpOption])]
  | .command .contend => helpText CommandName.contend.purpose "contend [OPTIONS]"
    [("Options",
      [("    --config <CONFIG>", "Backoff policy file (defaults to the unbounded policy)"),
        formatOption,
        ("    --threads <THREADS>", "Number of contending threads [default: 8]"),
        ("    --keys <KEYS>", "Number of distinct keys [default: 2]"),
        ("    --iterations <ITERATIONS>", "Acquisitions per thread [default: 100]"),
        ("    --hold-ms <HOLD_MS>",
          "How long each acquisition holds its key, in milliseconds [default: 1]"),
        helpOption])]
  | .command .deadlock => helpText CommandName.deadlock.purpose "deadlock [OPTIONS]"
    [("Options",
      [formatOption, ("    --split", "Place the two keys in separate lock factories"),
        helpOption])]

end KeyedLocks.CommandLine
