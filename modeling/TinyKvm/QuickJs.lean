import TinyKvm.Utf16
import Mathlib.Logic.Function.Basic

/-!
# QuickJS

What the JavaScript program uses of its engine. A string converts to
zero-terminated UTF-8 and back, and a function called from C completes with a
value or with an exception. The functions of a script act on the state of its
instance.
-/

namespace TinyKvm

namespace Js

/-- A string. -/
abbrev Str := List Utf16.Unit16

/-- The string conversions of the engine. -/
structure Engine where
  /-- `JS_ToCStringLen`. -/
  toCString : Str → Bytes
  /-- `JS_NewStringLen`. -/
  newString : Bytes → Str
  toCString_nil : toCString [] = []
  newString_toCString : ∀ s, newString (toCString s) = s
  cString_toCString : ∀ s, Utf16.cString (toCString s) = toCString (Utf16.cString s)

/-- The engine that decodes UTF-8 leniently. -/
def Engine.utf8 : Engine where
  toCString := Utf16.toUtf8
  newString := Utf16.ofUtf8
  toCString_nil := rfl
  newString_toCString := Utf16.ofUtf8_toUtf8
  cString_toCString := Utf16.cString_toUtf8

/-- A value : a string, or another value by the string it converts to, unless that throws. -/
inductive Value where
  | string (s : Str)
  | other (text : Option Str)
  deriving DecidableEq

/-- `undefined`. -/
def Value.undefined : Value :=
  .other (some (Utf16.ofAscii "undefined"))

/-- The string a value converts to. -/
def Value.text : Value → Option Str
  | string s => some s
  | other text => text

/-- What a call gives : a value, or `JS_EXCEPTION`. -/
inductive Completion where
  | returned (value : Value)
  | threw
  deriving DecidableEq

namespace Completion

/-- The string a call gives, unless it throws. -/
def text : Completion → Option Str
  | returned value => value.text
  | threw => none

end Completion

/-- A function of a script, called with strings. -/
abbrev Func (σ : Type) := List Str → σ → Completion × σ

/-- The global object : the functions among its properties. -/
abbrev Globals (σ : Type) := Str → Option (Func σ)

namespace Engine

variable (engine : Engine) {σ : Type}

/-- `JS_GetPropertyStr` on the global object, for a function. -/
def getProperty (global : Globals σ) (buffer : Bytes) : Option (Func σ) :=
  global (engine.newString (Utf16.cString buffer))

/-- A name is looked up as far as its first zero unit. -/
theorem getProperty_toCString (global : Globals σ) (name : Str) :
    engine.getProperty global (engine.toCString name) = global (Utf16.cString name) := by
  rw [getProperty, engine.cString_toCString, engine.newString_toCString]

theorem toCString_injective : Function.Injective engine.toCString :=
  Function.LeftInverse.injective engine.newString_toCString

theorem newString_nil : engine.newString [] = [] := by
  have h := engine.newString_toCString []
  rwa [engine.toCString_nil] at h

/-- A string that is not there is read as the empty one. -/
theorem newString_text (text : Option Str) :
    engine.newString ((text.map engine.toCString).getD []) = text.getD [] := by
  rcases text with - | t
  · exact engine.newString_nil
  · exact engine.newString_toCString t

theorem map_newString_toCString (args : List Str) :
    (args.map engine.toCString).map engine.newString = args := by
  rw [List.map_map]
  exact (List.map_congr_left fun s _ => engine.newString_toCString s).trans (List.map_id args)

end Engine

end Js

end TinyKvm
