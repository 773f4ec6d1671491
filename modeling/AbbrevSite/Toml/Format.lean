import AbbrevSite.Toml.Read
import AbbrevSite.Toml.Write

/-! Formats of settings files. What the settings need of one is a reader and a writer, which may be any. -/
namespace AbbrevSite.Toml

/-- How tables are kept as texts. A read table has its entries in the order of the text. -/
structure Format where
  read? : String → Option (Table Value)
  write? : Table Value → Option String

def Format.plain : Format := ⟨Toml.read?, fun t => some (write t)⟩

end AbbrevSite.Toml
