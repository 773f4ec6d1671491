import AbbrevSite.Proofs.Settings.Fields
import AbbrevSite.Proofs.Settings.Files
import AbbrevSite.Proofs.Settings.Settled
import Mathlib.Data.Set.List

/-! Saved settings are loaded again as they were. Each setting has a way of being written and one of being read; where the
file is read as the table that was written, the two undo each other, setting by setting. -/
namespace AbbrevSite

open Toml (Table Value Ordered)

namespace Toml.Format

end Toml.Format

/-- A behaviour whose maps are in order. -/
structure Behaviour.InOrder (b : Behaviour) : Prop where
  includeLanguages : b.includeLanguages.Ascending
  profiles : Ordered b.profiles
  preferences : Ordered b.preferences
  snippetVariables : Ordered b.snippetVariables

section Composed

variable {α : Type} {format : Toml.Format} {b other : Behaviour} {member : Nat → String → Option Value} {s : Settings}

lemma Taken.now {P : α → Prop} {m : Option Value} {read : Value → Option α} {absent now : α} (h : Taken m read absent now)
    (habsent : P absent) (hread : ∀ v, read v = some now → P now) : P now := by
  cases m with
  | some v => exact hread v h
  | none => exact h ▸ habsent

lemma Behaviour.InOrder.merge (hb : b.InOrder) (hother : other.InOrder) : (b.merge other).InOrder where
  includeLanguages := hb.includeLanguages.extend other.includeLanguages
  profiles := hb.profiles.extend hother.profiles
  preferences := hb.preferences.extend hother.preferences
  snippetVariables := hb.snippetVariables.extend hother.snippetVariables

end Composed

section Fields

variable {α : Type} {m w : Value} {b : Behaviour} {l : Limits} {r entries : Table Value}

namespace Toml.Value

end Toml.Value

/-- A table of a file in which every key of `entries`, and no other, has a value that settles as the one written. -/
structure WrittenAs (r entries : Table Value) : Prop where
  keyed : (Value.table r).Keyed
  rel : ∀ key, Option.Rel (fun v w => v.SettlesAs w.ascending) (Table.get? r key) (Table.get? entries key)

namespace WrittenAs

lemma found (h : WrittenAs r entries) {key : String} (hkey : Table.get? entries key = some w) :
    ∃ v, Table.get? r key = some v ∧ v.Keyed ∧ v.SettlesAs w.ascending := by
  have hrel := h.rel key
  rw [hkey] at hrel
  cases hget : Table.get? r key with
  | none =>
    rw [hget] at hrel
    cases hrel
  | some v =>
    rw [hget, Option.rel_some_some] at hrel
    exact ⟨v, rfl, h.keyed.get? hget, hrel⟩

lemma inner (h : WrittenAs r entries) {key : String} {t : Table Value} (ht : t.Distinct)
    (hkey : Table.get? entries key = some (.table t)) :
    ∃ u, Table.get? r key = some (.table u) ∧ WrittenAs u t := by
  obtain ⟨v, hv, hkeyed, hsettles⟩ := h.found hkey
  obtain ⟨u, rfl, hu⟩ := hsettles.exists_table
  exact ⟨u, hv, hkeyed, Toml.rel_get?_ascending hkeyed.distinct ht hu⟩

variable (h : WrittenAs r entries) {key : String}
include h

end WrittenAs

end Fields

namespace Settings

open CommandLine

variable {format : Toml.Format} {s : Settings} {root : Table Value}

end Settings

end AbbrevSite
