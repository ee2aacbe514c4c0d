/-
  The version of the library, and the versions of the forms that it writes.
-/
namespace EndToEnd

/-- The version of the library. -/
def libraryVersion : String := "0.1.0"

/-- The version of cards that is written. -/
def CardContent.currentVersion : String := "5.0"

/-- The version of envelopes that is written and read. -/
def Envelope.currentVersion : UInt8 := 1

/-- The version of kept card caches that is written. Later ones are not opened. -/
def CardFile.currentVersion : Int := 1

end EndToEnd
