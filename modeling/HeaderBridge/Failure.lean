import HeaderBridge.Grammar.Matching
import HeaderBridge.Outline.Fault
import HeaderBridge.Text.Blank

/-! # Failures

Why the program cannot do what it is asked, with the wording, the help and the
code that are reported.
-/

namespace HeaderBridge

inductive Failure where
  /-- The header does not match the grammar. -/
  | malformed (furthest : Grammar.Furthest) (help : String)
  | invalidType (spelling : String)
  | unreadable (path : String)
  | walk (path : String)
  | configuration
  | pattern (pattern : String)
  | conversion (count : Nat)
  /-- The outline was built out of turn. -/
  | fault (fault : Outline.Fault)
  deriving DecidableEq

namespace Failure

def message : Failure → String
  | malformed furthest _ => "Parse error: " ++ furthest.message
  | invalidType spelling => "Not a valid Objective-C type: '" ++ spelling ++ "'"
  | unreadable path => "Failed to read '" ++ path ++ "'"
  | walk path => "Failed to walk directory '" ++ path ++ "'"
  | configuration => "Invalid configuration"
  | pattern p => "Invalid file pattern '" ++ p ++ "'"
  | conversion count => toString count ++ " file(s) failed to convert"
  | fault f => f.message

def help? : Failure → Option String
  | malformed _ help => some help
  | invalidType _ =>
    some "type spellings look like `NSString *`, `__weak id<Delegate>` or `void (^)(BOOL)`"
  | configuration =>
    some ("expected keys: colorize, verbose, assume-nonnull, emit-objc-attributes, "
      ++ "include-pattern, exclude-pattern, follow-symlinks")
  | pattern _ => some "patterns are regular expressions matched against the full file path"
  | unreadable _ | walk _ | conversion _ | fault _ => none

def code : Failure → String
  | malformed _ _ => "rewriter::parse::syntax"
  | invalidType _ => "rewriter::parse::type_spelling"
  | unreadable _ => "rewriter::io"
  | walk _ => "rewriter::io::walk"
  | configuration => "rewriter::config"
  | pattern _ => "rewriter::config::pattern"
  | conversion _ => "rewriter::convert::failed"
  | fault _ => "rewriter::internal"

def occurrences (c : Char) (text : String) : Nat := text.toList.count c

/-- What may help when a header fails to match at the given offset. -/
def malformedHelp (text : String) (offset : Nat) : String :=
  let rest := Text.dropBlanks (Grammar.dropBytes offset text.toList)
  if rest.isEmpty || "@end".toList.isPrefixOf rest then
    "check for a missing or extra `@end`"
  else if occurrences '\x7b' text ≠ occurrences '\x7d' text then
    "the braces in this file are unbalanced"
  else
    "only declarations (@interface, @protocol, @property, methods) are converted"

end Failure

end HeaderBridge
