import HeaderBridge.Declaration.OfOutline

/-! # Options

The choices that a user makes in an options file or on the command line.
-/

namespace HeaderBridge

/-- The choices of a user; each has a default. -/
structure Options where
  /-- Whether output is coloured; left to the terminal if absent. -/
  colorize : Option Bool := none
  verbose : Bool := false
  assumeNonnull : Bool := false
  emitAttributes : Bool := false
  /-- Only files whose path matches are searched for. -/
  includePattern : Option String := none
  /-- Files whose path matches are left out. -/
  excludePattern : Option String := none
  /-- Whether a search goes through symbolic links. -/
  followLinks : Bool := false
  deriving DecidableEq

namespace Options

def logFilter (o : Options) : String := if o.verbose then "debug" else "warn"

/-- Whether output is coloured, given whether it goes to a terminal. -/
def coloured (o : Options) (terminal : Bool) : Bool := o.colorize.getD terminal

def policy (o : Options) : Declaration.Policy where
  assumeNonnull := o.assumeNonnull
  emitAttributes := o.emitAttributes

end Options

end HeaderBridge
