import StrategyDoc.Settings.Ini
import StrategyDoc.Text.Unsigned

/-! # Typed settings

A source of settings answers, for a heading and a key, with a truth value or a number, with
nothing if there is none, or with the reason why what is there cannot be read. -/

namespace StrategyDoc

/-- A source of truth values and numbers. -/
structure Settings where
  bool? : (heading key : String) → Except String (Option Bool)
  unsigned? : (heading key : String) → Except String (Option Nat)

/-- The truth value of a word, in any case and with blanks around it. -/
def Settings.readBool? (text : String) : Option Bool :=
  match String.ofList (Text.lower (Text.trim text.toList)) with
  | "true" => some true
  | "yes" => some true
  | "on" => some true
  | "1" => some true
  | "false" => some false
  | "no" => some false
  | "off" => some false
  | "0" => some false
  | _ => none

namespace Ini

/-- The truth value of a setting. -/
def bool? (ini : Ini) (heading key : String) : Except String (Option Bool) :=
  match ini.value? heading key with
  | none => .ok none
  | some text =>
    match Settings.readBool? text with
    | some b => .ok (some b)
    | none => .error s!"expected a boolean, found '{text}'"

/-- The number of a setting. -/
def unsigned? (ini : Ini) (heading key : String) : Except String (Option Nat) :=
  match ini.value? heading key with
  | none => .ok none
  | some text =>
    match Text.readUnsigned text.toList with
    | .ok n => .ok (some n)
    | .error fault => .error fault.message

/-- The settings of an INI text. -/
def toSettings (ini : Ini) : Settings := ⟨ini.bool?, ini.unsigned?⟩

end Ini

end StrategyDoc
