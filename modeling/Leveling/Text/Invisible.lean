import Leveling.Text.Table

/-!
# Invisible characters

A character can be assigned and still not be text to be seen: control characters, spaces and
separators, formatting characters, and the fillers that keep the place of a missing letter.  The
table lists those outside ASCII, by version 17 of the Unicode standard.
-/

namespace Leveling

/-- The characters outside ASCII that control, separate or format text, or fill an empty place. -/
def CharTable.invisible : CharTable where
  ranges :=
    [(0x80, 0xa0), (0xad, 0xad), (0x600, 0x605), (0x61c, 0x61c), (0x6dd, 0x6dd), (0x70f, 0x70f),
     (0x890, 0x891), (0x8e2, 0x8e2), (0x115f, 0x1160), (0x1680, 0x1680), (0x180e, 0x180e),
     (0x2000, 0x200f), (0x2028, 0x202f), (0x205f, 0x2064), (0x2066, 0x206f), (0x3000, 0x3000),
     (0x3164, 0x3164), (0xfeff, 0xfeff), (0xffa0, 0xffa0), (0xfff9, 0xfffb), (0x110bd, 0x110bd),
     (0x110cd, 0x110cd), (0x13430, 0x1343f), (0x1bca0, 0x1bca3), (0x1d173, 0x1d17a),
     (0xe0001, 0xe0001), (0xe0020, 0xe007f)]
  separated := by decide +kernel

end Leveling
