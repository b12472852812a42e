import FileSignatures.Text.Basic

/-!
# Property keys

The keys that have a meaning, and how their values are to be read. They are
recognised in any mixture of cases and reported in one spelling.

## Main definitions

* `PropertyKind`: How the value of a key is read.
* `PropertyKey.known`: The recognised keys.
* `PropertyKey.lookup?`: The recognised key that a text spells.
-/

namespace FileSignatures

/-- How the value of a recognised key is read. -/
inductive PropertyKind where
  | text
  /-- An integer expression. -/
  | integer
  /-- An expression whose value is a rate. -/
  | float
  deriving DecidableEq, Repr

/-- Whether two texts agree but for the case of ASCII letters. -/
def Text.agreesIgnoringCase (s t : Text) : Bool :=
  s.map Char.toLower = t.map Char.toLower

namespace PropertyKey

/-- File name suffix. -/
def suffix : Text := "ext".toList

/-- Identifier of the format. -/
def format : Text := "fid".toList

/-- Title of the work. -/
def title : Text := "title".toList

/-- Who made the work. -/
def creator : Text := "creator".toList

/-- Count of audio channels. -/
def channels : Text := "chn".toList

/-- Sampling rate in Hz. -/
def samplingRate : Text := "freq".toList

/-- Width and height of an image. -/
def resolution : Text := "res".toList

/-- Media type. -/
def mime : Text := "mime".toList

/-- Frames per second. -/
def frameRate : Text := "frameRate".toList

/-- The part of a description outside of brackets. It is no recognised key, but
    every extraction sets it. -/
def comment : Text := "comment".toList

/-- The recognised keys in their reported spelling, and their kinds. -/
def known : List (Text × PropertyKind) :=
  [(suffix, .text), (format, .text), (title, .text), (creator, .text), (channels, .integer),
   (samplingRate, .text), (resolution, .text), (mime, .text), (frameRate, .float)]

/-- The recognised key that a text spells, in any mixture of cases. -/
def lookup? (key : Text) : Option (Text × PropertyKind) :=
  known.find? fun entry => entry.1.agreesIgnoringCase key

end PropertyKey

end FileSignatures
