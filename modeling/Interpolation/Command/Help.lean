import Interpolation.Text.Utf8

/-!
# The information texts of the command
-/

namespace Interpolation.Command

def helpLines : List String :=
  ["Replaces variables of the form `$\x7bKEY\x7d` in the input text with their values.",
    "",
    "Usage: substvar [OPTIONS]",
    "",
    "Options:",
    "  -i, --input <FILE>          The input text file to use; '-' for stdin [default: -]",
    "  -o, --output <FILE>         The output text file to use; '-' for stdout [default: -]",
    "  -D, --variable <KEY=VALUE>  A variable KEY=VALUE pair; takes precedence over the" ++
      " environment",
    "      --no-env                Do not use environment variables for substitution",
    "  -k, --keep-missing          Leave placeholders without a value in place instead of failing",
    "      --no-escapes            Treat `$$\x7b` as two ordinary dollars instead of" ++
      " an escaped `$\x7b`",
    "  -l, --list                  Only list the keys found in the input, one per line, in order" ++
      " and with duplicates, then exit",
    "  -v, --verbose               More verbose logging, down to every resolved key" ++
      " (useful for debugging)",
    "  -q, --quiet                 Only log errors",
    "  -h, --help                  Print help",
    "  -V, --version               Print version"]

def helpText : Text :=
  helpLines.flatMap fun line => line.toList ++ ['\n']

def versionText : Text :=
  "substvar 0.1.0\n".toList

end Interpolation.Command
