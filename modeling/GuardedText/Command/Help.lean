/-
  What the command says about itself.
-/

namespace GuardedText.Command

/-- The version of the command. -/
def versionLine : String := "condcomp 1.0.0"

/-- How the command is called. -/
def usageLines : List String :=
  ["usage: condcomp [-h] [-g] [-D NAME[=VALUE]] [-e ENV] [--dry-run] -i [-v] [-V]",
   "                files [files ...]"]

/-- What the options of the command mean. -/
def helpLines : List String :=
  usageLines ++
  ["",
   "Conditionally compile JS code files with #if, #elseif, #else, #endif comments.",
   "Currently files can only be modified in place via the required option -i.",
   "",
   "positional arguments:",
   "  files                 Input files (glob patterns with --glob)",
   "",
   "options:",
   "  -h, --help            show this help message and exit",
   "  -g, --glob            Treat input files as glob patterns (** recurses)",
   "                        (default: False)",
   "  -D NAME[=VALUE], --var NAME[=VALUE]",
   "                        Context variable, e.g. DEBUG or ENV=local (repeatable)",
   "                        (default: None)",
   "  -e ENV, --env ENV     Env file to use as the context (dotenv syntax)",
   "                        (default: None)",
   "  --dry-run             Do not modify files (default: False)",
   "  -i, --in-place        Modify files in place (default: False)",
   "  -v, --verbosity       Increase output verbosity (can be repeated: -v, -vv)",
   "                        (default: 1)",
   "  -V, --version         show program's version number and exit"]

end GuardedText.Command
