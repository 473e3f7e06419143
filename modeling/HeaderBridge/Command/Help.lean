import HeaderBridge.Command.Arguments

/-! # Help

The texts that explain the command line.
-/

namespace HeaderBridge.Command

def programName : String := "swift-rewriter"

def versionLine : String := programName ++ " 0.1.0"

/-- A name or the form of an option, with what it means. -/
abbrev Explained := String × String

def explain (title : String) (items : List Explained) : String :=
  let width := items.foldl (fun w (form, _) => max w form.length) 0
  let line := fun ((form, meaning) : Explained) =>
    "  " ++ form ++ "".pushn ' ' (width - form.length) ++ "  " ++ meaning ++ "\n"
  title ++ ":\n" ++ .join (items.map line)

def commandHelp : List Explained :=
  [("files", "Convert one or more files and print the Swift to stdout"),
    ("path", "Collect every .h/.m file under a path and convert them after confirmation"),
    ("ast", "Print the AST built for a file"),
    ("type", "Parse one Objective-C type spelling and show its Swift rendering"),
    ("help", "Print this message or the help of the given subcommand(s)")]

def optionHelp : List Explained :=
  [("    --colorize [<COLORIZE>]",
      "Colorize terminal output (detected from the terminal when omitted) "
        ++ "[possible values: true, false]"),
    ("-v, --verbose", "Print progress and skipped constructs to stderr"),
    ("    --config <FILE>", "YAML configuration file; flags override its values"),
    ("    --assume-nonnull", "Treat every file as audited for nullability"),
    ("    --emit-objc-attributes", "Prefix generated members with `@objc`"),
    ("-h, --help", "Print help")]

namespace Verb

def name : Verb → String
  | files => "files"
  | path => "path"
  | ast => "ast"
  | type => "type"

def argumentHelp : Verb → Explained
  | files => ("<FILES>...", "Objective-C file(s) to convert")
  | path => ("<PATH>", "Directory to search")
  | ast => ("<FILE>", "")
  | type => ("<SPELLING>", "For example `NSArray<NSString *> * _Nullable`")

def ownOptionHelp : Verb → List Explained
  | path =>
    [("    --exclude-pattern <PATTERN>",
        "Regular expression over the full path; matching files are left out"),
      ("    --include-pattern <PATTERN>",
        "Regular expression over the full path; only matching files are kept"),
      ("    --skip-confirm", "Convert without asking for confirmation")]
  | ast => [("    --json", "Emit JSON instead of an indented outline")]
  | files | type => []

end Verb

def helpText : Option Verb → String
  | none =>
    "Converts Objective-C headers into equivalent Swift declarations.\n\nUsage: " ++ programName
      ++ " [OPTIONS] <COMMAND>\n\n" ++ explain "Commands" commandHelp ++ "\n"
      ++ explain "Options" (optionHelp ++ [("-V, --version", "Print version")])
  | some v =>
    (commandHelp.lookup v.name).getD "" ++ "\n\nUsage: " ++ programName ++ " " ++ v.name
      ++ " [OPTIONS] " ++ v.argumentHelp.1 ++ "\n\n" ++ explain "Arguments" [v.argumentHelp]
      ++ "\n" ++ explain "Options" (v.ownOptionHelp ++ optionHelp)

def Usage.message : Usage → String
  | help _ | nothing => helpText none
  | version => versionLine
  | missingCommand => "error: a subcommand is required but one was not provided"
  | unknownCommand => "error: unrecognized subcommand"
  | missingArgument => "error: a required argument was not provided"
  | unknownArgument => "error: unexpected argument found"
  | invalidValue => "error: an option has no value or an invalid one"
  | repeatedOption => "error: an option cannot be used multiple times"
  | surplusValue => "error: a value was given to an option that takes none"

end HeaderBridge.Command
