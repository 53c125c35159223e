import Proposals.Value

/-!
# `Proposals.Settings.Logging` — what is logged and how

A log level is named in any case. Beside the levels one name stands for a line pattern, which is
then handed on in place of a level; names that mean nothing stand for the middle level.

## Contents
- `linePattern`: how a line of the log is written.
- `levelOf`: the level that a name means.
-/

namespace Proposals.Settings.Logging

open Proposals.Text

/-- How a line of the log is written. -/
def linePattern : String := "%(asctime)s - %(name)s - %(levelname)s - %(message)s"

/-- The middle level. -/
def infoLevel : Int := 20

/-- The names of levels, and of the short line pattern. -/
def namedLevels : List (String × Value) :=
  [("CRITICAL", .int 50), ("FATAL", .int 50), ("ERROR", .int 40), ("WARNING", .int 30),
    ("WARN", .int 30), ("INFO", .int infoLevel), ("DEBUG", .int 10), ("NOTSET", .int 0),
    ("BASIC_FORMAT", .text "%(levelname)s:%(name)s:%(message)s")]

/-- The level that a name means. -/
def levelOf (name : String) : Value :=
  (Table.find? (String.ofList (uppercase name.toList)) namedLevels).getD (.int infoLevel)

end Proposals.Settings.Logging
