import CallSchema.CommandLine.Command

set_option autoImplicit false

namespace CallSchema.CommandLine

def versionText : Text := "fcspec 0.1.0\n"

def Topic.lines : Topic → List String
  | .program =>
    ["Compiles Python type annotations and docstrings into function-calling JSON schemas",
      "",
      "Usage: fcspec <COMMAND>",
      "",
      "Commands:",
      "  package  Compile a single package directory",
      "  all      Compile every package under a source directory",
      "  help     Print this message or the help of the given subcommand(s)",
      "",
      "Options:",
      "  -h, --help     Print help",
      "  -V, --version  Print version"]
  | .package =>
    ["Compile a single package directory",
      "",
      "Usage: fcspec package [OPTIONS] <DIR>",
      "",
      "Arguments:",
      "  <DIR>  Package directory containing `__init__.py`",
      "",
      "Options:",
      "      --out <OUT>                  Output directory [default: ./Schemas]",
      "      --source-root <SOURCE_ROOT>  Directory dotted locations resolve against " ++
        "[default: the package's parent]",
      "      --doc-mode <DOC_MODE>        raw_docstring, concise or medium_detail " ++
        "[default: raw_docstring]",
      "  -h, --help                       Print help"]
  | .all =>
    ["Compile every package under a source directory",
      "",
      "Usage: fcspec all [OPTIONS]",
      "",
      "Options:",
      "      --src <SRC>        Directory holding one sub-directory per package " ++
        "[default: ./APIs]",
      "      --out <OUT>        Output directory [default: ./Schemas]",
      "      --defer <DEFER>    Package compiled last, on its own",
      "      --only <ONLY>      Only compile these packages",
      "      --config <CONFIG>  JSON file selecting doc modes per package",
      "      --jobs <JOBS>      Maximum packages compiled at once " ++
        "[default: available parallelism]",
      "  -h, --help             Print help"]
  | .help =>
    ["Print this message or the help of the given subcommand(s)",
      "",
      "Usage: fcspec help [COMMAND]...",
      "",
      "Arguments:",
      "  [COMMAND]...  Print help for the subcommand(s)"]

def Topic.text (topic : Topic) : Text :=
  topic.lines.flatMap fun line => line.toList ++ ['\n']

end CallSchema.CommandLine
