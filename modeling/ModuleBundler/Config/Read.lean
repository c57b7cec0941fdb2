import ModuleBundler.Config.Settings
import ModuleBundler.Json.Shape
import ModuleBundler.ModuleId

/-
  Settings, log levels and identifiers read from JSON texts. What is not given keeps its default.
-/

namespace ModuleBundler

open Json

/-- The fields of resolve settings. All of them may be missing. -/
def ResolveSettings.shape : Shape ResolveSettings where
  blank := {}
  fields :=
    [.of "extensions" .never (readList readString) fun v s => { s with extensions := v },
     .of "resolveIndex" .never readBool fun v s => { s with resolveIndex := v },
     .of "caseSensitive" .never readBool fun v s => { s with caseSensitive := v }]

/-- Reads resolve settings. -/
def ResolveSettings.read : Reader ResolveSettings := ResolveSettings.shape.read

/-- The fields of output settings. All of them may be missing. -/
def OutputSettings.shape : Shape OutputSettings where
  blank := {}
  fields :=
    [.of "outDir" .never readString fun v s => { s with directory := v },
     .of "filename" .never readString fun v s => { s with fileName := v },
     .of "banner" .never (readOptional readString) fun v s => { s with banner? := v },
     .of "strict" .never readBool fun v s => { s with strict := v },
     .of "write" .never readBool fun v s => { s with write := v }]

/-- Reads output settings. -/
def OutputSettings.read : Reader OutputSettings := OutputSettings.shape.read

/-- Reads an identifier. Any string is taken. -/
def ModuleId.read : Reader ModuleId := readString.map ModuleId.mk

namespace LogLevel

/-- The level with a name. -/
def ofName? (name : String) : Option LogLevel := all.find? (·.name == name)

/-- Reads the name of a level. Only a string can be one: anything else is taken for no JSON, be it
the name alone or the key of an object. -/
def readName : Reader LogLevel := fun input => do
  let quote ← nextChar input
  if quote.value == '"' then
    let name ← finishString quote
    match ofName? name.value with
    | some level => return name.map fun _ => level
    | none => .error .mismatched
  else .error .malformed

/-- The bracket at the end of an object. -/
def closeObject : Reader Unit := fun input => do
  let c ← nextChar input
  if c.value == '\x7d' then return c.map fun _ => () else .error .malformed

/-- Reads a level: its name, or an object with the name as its one key and no value. -/
def read : Reader LogLevel := fun input => do
  let c ← nextChar input
  if c.value == '\x7b' then
    let level ← readName c.rest
    let mark ← colon level.rest
    let nothing ← readNull mark.rest
    let last ← closeObject nothing.rest
    return ⟨level.value, last.rest, by
      have := last.shorter; have := nothing.shorter; have := mark.shorter; have := level.shorter
      have := c.shorter; omega⟩
  else readName input

/-- The level that a word names, in any case. Silence still lets errors through. -/
def parse? (word : String) : Option LogLevel :=
  let name := Text.toLower word
  if name == "silent" then some .error else ofName? name

/-- What is said of a word that names no level. -/
def unknownMessage (word : String) : String :=
  s!"unknown log level '{word}' (expected silent, error, warn, info, debug or trace)"

end LogLevel

end ModuleBundler
