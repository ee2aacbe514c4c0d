/-
  The text form of messages, and what arguments have to hold.

  A sealed message is written in base64; it is read with blank space around it, and otherwise in
  that one form only. An opened message that is to be a text has to be UTF-8.
-/
import EndToEnd.Error
import EndToEnd.Text.Base64
import EndToEnd.Text.Blank
import EndToEnd.Text.Utf8

namespace EndToEnd.Message

/-- Refuses empty data. -/
def requireData (data : Octets) : Except Error Unit :=
  if data.isEmpty then .error (.emptyArgument "data") else .ok ()

/-- Refuses a blank text; `name` is what the argument is called. -/
def requireText (name text : String) : Except Error Unit :=
  if Text.isBlank text then .error (.emptyArgument name) else .ok ()

/-- The text form of a sealed message. -/
def encodeText (sealed : Octets) : String := Base64.text sealed

/-- The sealed message of a text. -/
def decodeText (text : String) : Except Error Octets :=
  match requireText "text" text with
  | .error e => .error e
  | .ok () =>
    match Base64.decode? (Text.trim text.toList) with
    | some sealed => .ok sealed
    | none => .error (.conversion "Text is not valid base64: not in its written form")

/-- The text that an opened message is. -/
def plainText (data : Octets) : Except Error String :=
  match Utf8.decode? data, Utf8.fault data with
  | some text, _ => .ok text
  | none, some fault => .error (.conversion ("Plaintext is not UTF-8: " ++ fault.message))
  | none, none => .error (.conversion "Plaintext is not UTF-8")

end EndToEnd.Message
